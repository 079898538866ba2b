import Hprd.Common.FrameBuffer
import Mathlib.Tactic

/-!
# Uploading a decoded picture

`svc_push_pkt` stores what the decoder reports of a picture in a `raw_buffer`,
`gl_transport_pbo` copies it into the texture, and `display_dev/opengl/yuv420_render.c`
uploads the three planes from there. The decoder's second stride is that of a chroma row;
from the buffer on it is a number of luma rows.
-/

namespace Hprd.Display

open Common

/-- An I420 picture of the decoder: what it reports in `sSystemBuffer`, and where the planes
begin. -/
structure I420Picture where
  iWidth : Nat
  iHeight : Nat
  iStride0 : Nat
  iStride1 : Nat
  data : Fin 4 → Nat
  width_le : iWidth ≤ iStride0
  half_le : iWidth / 2 ≤ iStride1
  /-- they are positive `int`s -/
  int : iHeight < 2 ^ 31 ∧ iStride0 < 2 ^ 31 ∧ iStride1 < 2 ^ 31

/-- The rows of a plane, and the bytes of each. -/
structure Plane where
  rows : Nat
  stride : Nat

/-- What the decoder guarantees of the luma plane and of each chroma plane. -/
def I420Picture.plane (p : I420Picture) : Fin 3 → Plane
  | 0 => ⟨p.iHeight, p.iStride0⟩
  | 1 => ⟨p.iHeight / 2, p.iStride1⟩
  | 2 => ⟨p.iHeight / 2, p.iStride1⟩

/-! ## The code -/

/-- The members that `svc_push_pkt` fills in. -/
def svcPushPkt (p : I420Picture) (rawBuf : RawBuffer) : RawBuffer :=
  { rawBuf with
    width := UInt32.ofNat p.iWidth
    horStride := UInt32.ofNat p.iStride0
    height := UInt32.ofNat p.iHeight
    verStride := UInt32.ofNat p.iStride1
    size := UInt32.ofNat p.iWidth * UInt32.ofNat p.iHeight * 3 / 2
    format := FramebufferFormat.yuv420p.code
    ptrs := p.data }

/-- The geometry in a `struct gl_texture`. -/
structure GlTexture where
  width : UInt32
  height : UInt32
  hStride : UInt32
  vStride : UInt32

/-- A call of `glTexImage2D` or `glTexSubImage2D` with its `GL_UNPACK_ROW_LENGTH`, for the plane
that begins at `ptrs[plane]`. -/
structure Upload where
  plane : Fin 3
  rowLength : UInt32
  width : UInt32
  height : UInt32

/-- What `gl_create_pbo_texture` and `gl_update_pbo_texture` ask for. -/
inductive GlCall where
  | texImage2D (u : Upload)
  | texSubImage2D (u : Upload)

def GlCall.upload : GlCall → Upload
  | texImage2D u => u
  | texSubImage2D u => u

/-- The three calls that `yuv420_bind_pbo` and `yuv420_transport_pbo` have in common. -/
def yuv420Pbo (pbo : Upload → GlCall) (texture : GlTexture) : List GlCall :=
  let height := if texture.vStride > texture.height then texture.vStride else texture.height
  [pbo ⟨0, texture.hStride, texture.width, height⟩,
    pbo ⟨1, texture.hStride / 2, texture.width / 2, height / 2⟩,
    pbo ⟨2, texture.hStride / 2, texture.width / 2, height / 2⟩]

def yuv420BindPbo (texture : GlTexture) : List GlCall := yuv420Pbo .texImage2D texture

def yuv420TransportPbo (texture : GlTexture) : List GlCall := yuv420Pbo .texSubImage2D texture

def textureOf (buffer : RawBuffer) : GlTexture :=
  ⟨buffer.width, buffer.height, buffer.horStride, buffer.verStride⟩

def glBindPbo (buffer : RawBuffer) : List GlCall := yuv420BindPbo (textureOf buffer)

def glTransportPbo (buffer : RawBuffer) : List GlCall := yuv420TransportPbo (textureOf buffer)

/-! ## What is read -/

/-- The bytes from the first one to behind the last: `height` rows of `rowLength` bytes, of the
last one only `width`. An upload without pixels reads nothing. -/
def span (rowLength width height : Nat) : Nat :=
  if width = 0 ∨ height = 0 then 0 else (height - 1) * rowLength + width

/-- The upload stays inside its plane. -/
def I420Picture.Contains (p : I420Picture) (u : Upload) : Prop :=
  span u.rowLength.toNat u.width.toNat u.height.toNat ≤
    (p.plane u.plane).rows * (p.plane u.plane).stride

/-- The uploads of a picture, the first and all later ones, stay inside its planes. -/
def I420Picture.Uploads (p : I420Picture) : Prop :=
  ∀ rawBuf, ∀ call ∈ glBindPbo (svcPushPkt p rawBuf) ++ glTransportPbo (svcPushPkt p rawBuf),
    p.Contains call.upload

/-- No chroma row is longer than the picture is high, and the chroma rows laid out with half of
the luma stride end inside the chroma plane. -/
def I420Picture.Roomy (p : I420Picture) : Prop :=
  p.iWidth = 0 ∨ p.iStride1 ≤ p.iHeight ∧
    (p.iWidth < 2 ∨ p.iHeight < 2 ∨
      (p.iHeight / 2 - 1) * (p.iStride0 / 2) + p.iWidth / 2 ≤ p.iHeight / 2 * p.iStride1)

instance (p : I420Picture) : Decidable p.Roomy := by
  unfold I420Picture.Roomy
  infer_instance

theorem span_le_iff {rowLength width height n : Nat} (hw : 0 < width) (hh : 0 < height) :
    span rowLength width height ≤ n ↔ (height - 1) * rowLength + width ≤ n := by
  rw [span, if_neg (by omega)]

/-- Rows that are read with the plane's own stride stay inside just if there are no more of them
than the plane has. -/
theorem span_le_rows_iff {stride width height rows : Nat} (hw : 0 < width)
    (hle : width ≤ stride) : span stride width height ≤ rows * stride ↔ height ≤ rows := by
  by_cases hh : height = 0
  · simp [span, hh]
  · rw [span_le_iff hw (Nat.pos_of_ne_zero hh)]
    constructor
    · intro h
      by_contra hlt
      have hmul : rows * stride ≤ (height - 1) * stride := Nat.mul_le_mul_right _ (by omega)
      omega
    · intro h
      have hmul : (height - 1 + 1) * stride ≤ rows * stride := Nat.mul_le_mul_right _ (by omega)
      rw [Nat.add_mul, Nat.one_mul] at hmul
      omega

section

variable (p : I420Picture)

theorem toNat_ofNat_int {n : Nat} (h : n < 2 ^ 31) : (UInt32.ofNat n).toNat = n := by
  rw [UInt32.toNat_ofNat', Nat.mod_eq_of_lt (by omega)]

theorem uploadHeight_toNat :
    (if UInt32.ofNat p.iStride1 > UInt32.ofNat p.iHeight then UInt32.ofNat p.iStride1
      else UInt32.ofNat p.iHeight).toNat = max p.iStride1 p.iHeight := by
  have hheight : (UInt32.ofNat p.iHeight).toNat = p.iHeight :=
    toNat_ofNat_int p.int.1
  have hstride : (UInt32.ofNat p.iStride1).toNat = p.iStride1 :=
    toNat_ofNat_int p.int.2.2
  split
  next h =>
    rw [gt_iff_lt, UInt32.lt_iff_toNat_lt, hheight, hstride] at h
    omega
  next h =>
    rw [gt_iff_lt, UInt32.lt_iff_toNat_lt, hheight, hstride] at h
    omega

theorem uploads_iff : p.Uploads ↔
    span p.iStride0 p.iWidth (max p.iStride1 p.iHeight) ≤ p.iHeight * p.iStride0 ∧
      span (p.iStride0 / 2) (p.iWidth / 2) (max p.iStride1 p.iHeight / 2) ≤
        p.iHeight / 2 * p.iStride1 := by
  have hwidth : (UInt32.ofNat p.iWidth).toNat = p.iWidth :=
    toNat_ofNat_int (p.width_le.trans_lt p.int.2.1)
  have hstride : (UInt32.ofNat p.iStride0).toNat = p.iStride0 :=
    toNat_ofNat_int p.int.2.1
  have htwo : (2 : UInt32).toNat = 2 := rfl
  have hheight := uploadHeight_toNat p
  let texture : GlTexture := ⟨UInt32.ofNat p.iWidth, UInt32.ofNat p.iHeight,
    UInt32.ofNat p.iStride0, UInt32.ofNat p.iStride1⟩
  have hcalls : p.Uploads ↔ ∀ call ∈ yuv420BindPbo texture ++ yuv420TransportPbo texture,
      p.Contains call.upload :=
    ⟨fun h => h .zero, fun h _ => h⟩
  rw [hcalls]
  unfold yuv420BindPbo yuv420TransportPbo yuv420Pbo
  dsimp only [texture]
  generalize (if UInt32.ofNat p.iStride1 > UInt32.ofNat p.iHeight then UInt32.ofNat p.iStride1
    else UInt32.ofNat p.iHeight) = height at hheight ⊢
  simp only [List.cons_append, List.nil_append, List.forall_mem_cons,
    List.not_mem_nil, false_imp_iff, implies_true, I420Picture.Contains, I420Picture.plane,
    GlCall.upload, UInt32.toNat_div, hwidth, hstride, hheight, htwo]
  constructor
  · rintro ⟨hluma, hchroma, -⟩
    exact ⟨hluma, hchroma⟩
  · rintro ⟨hluma, hchroma⟩
    exact ⟨hluma, hchroma, hchroma, hluma, hchroma, hchroma, trivial⟩

end

/-- The uploads stay inside the planes just for the pictures that are roomy. -/
theorem uploads_iff_roomy (p : I420Picture) : p.Uploads ↔ p.Roomy := by
  rw [uploads_iff, I420Picture.Roomy]
  by_cases hw : p.iWidth = 0
  · simp [span, hw]
  · rw [span_le_rows_iff (Nat.pos_of_ne_zero hw) p.width_le]
    constructor
    · rintro ⟨hluma, hchroma⟩
      have hrows : max p.iStride1 p.iHeight = p.iHeight := by omega
      refine .inr ⟨by omega, ?_⟩
      by_cases hw2 : p.iWidth < 2
      · exact .inl hw2
      · by_cases hh2 : p.iHeight < 2
        · exact .inr (.inl hh2)
        · rw [hrows, span_le_iff (by omega) (by omega)] at hchroma
          exact .inr (.inr hchroma)
    · rintro (h0 | ⟨hluma, hchroma⟩)
      · exact absurd h0 hw
      · have hrows : max p.iStride1 p.iHeight = p.iHeight := by omega
        refine ⟨by omega, ?_⟩
        rw [hrows]
        rcases hchroma with hw2 | hh2 | hchroma
        · rw [span, if_pos (by omega)]
          exact Nat.zero_le _
        · rw [span, if_pos (by omega)]
          exact Nat.zero_le _
        · by_cases hz : p.iWidth / 2 = 0 ∨ p.iHeight / 2 = 0
          · rw [span, if_pos hz]
            exact Nat.zero_le _
          · rw [span_le_iff (by omega) (by omega)]
            exact hchroma

/-- A picture of 2560 by 1080, with 32 bytes of padding on each side of a luma row. -/
def ultraWide : I420Picture where
  iWidth := 2560
  iHeight := 1080
  iStride0 := 2624
  iStride1 := 1312
  data := fun _ => 0
  width_le := by decide
  half_le := by decide
  int := by decide

/-- As many luma rows are read of it as a chroma row has bytes. -/
theorem ultraWide_not_uploads : ¬ultraWide.Uploads := by
  rw [uploads_iff]
  decide

end Hprd.Display
