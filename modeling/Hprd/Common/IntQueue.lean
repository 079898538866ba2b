import Mathlib.Logic.Function.Basic

/-!
# `int_queue` of `common/queue.c`

Two 32-bit counters that wrap, over `QUEUE_SIZE` cells.
-/

namespace Hprd.Common

def queueSize : Nat := 24

structure IntQueue where
  bufferQueue : Nat → Int
  bufferHead : UInt32
  bufferTail : UInt32

def queuePutInt (queue : IntQueue) (id : Int) : Int × IntQueue :=
  if queue.bufferHead ≤ queue.bufferTail + UInt32.ofNat queueSize then
    (0, { queue with
      bufferQueue := Function.update queue.bufferQueue (queue.bufferHead.toNat % queueSize) id
      bufferHead := queue.bufferHead + 1 })
  else (-1, queue)

def queueGetInt (queue : IntQueue) : Int × IntQueue :=
  if queue.bufferTail < queue.bufferHead then
    (queue.bufferQueue (queue.bufferTail.toNat % queueSize),
      { queue with bufferTail := queue.bufferTail + 1 })
  else (-1, queue)

/-- `queue_int_len`: the difference of the counters as an `int`. -/
def queueIntLen (queue : IntQueue) : Int :=
  (queue.bufferHead - queue.bufferTail).toInt32.toInt

end Hprd.Common
