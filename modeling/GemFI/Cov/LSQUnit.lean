import GemFI.Cov.Analyzer
import Mathlib.Data.List.DropRight

/-!
# The store side of LSQUnit

The store queue of the load-store unit, as far as it decides which hooks the analyzer gets: stores are inserted in
program order, write their data, become able to write back when they commit, are written back from the front and leave
the queue when the response arrives.  A squash takes the youngest stores off the queue without any hook.

Store conditionals, data prefetches, local accesses, requests without data and blocked caches are left out.
-/

namespace GemFI.Cov

structure SQEntry where
  seqNum : Nat
  size : Nat := 0
  canWB : Bool := false
  committed : Bool := false
  completed : Bool := false
  deriving DecidableEq, Repr

/-- The queue from front to back; `head` is the index of the front and `storeWBIdx` the next store to write back. -/
structure LSQUnit where
  head : Nat := 1
  storeQueue : List SQEntry := []
  storeWBIdx : Nat := 1
  deriving DecidableEq, Repr

namespace LSQUnit

variable {cfg : Config}

def insertStore (cfg : Config) (u : LSQUnit) (seqNum : Nat) : LSQUnit :=
  if u.storeQueue.length < cfg.sq_entries then { u with storeQueue := u.storeQueue ++ [{ seqNum := seqNum }] } else u

def entry (u : LSQUnit) (store_idx : Nat) : Option SQEntry :=
  if u.head ≤ store_idx then u.storeQueue[store_idx - u.head]? else none

def modifyEntry (u : LSQUnit) (store_idx : Nat) (f : SQEntry → SQEntry) : LSQUnit :=
  { u with storeQueue := u.storeQueue.modify (store_idx - u.head) f }

def write (u : LSQUnit) (store_idx size : Nat) : LSQUnit × List (Event cfg) :=
  match u.entry store_idx with
  | none => (u, [])
  | some _ => (u.modifyEntry store_idx fun x => { x with size := size }, [.sqWrite (store_idx % cfg.sq_entries)])

def markCanWB (youngest_inst : Nat) : List SQEntry → List SQEntry
  | [] => []
  | x :: xs =>
    if x.canWB then x :: markCanWB youngest_inst xs
    else if youngest_inst < x.seqNum then x :: xs
    else { x with canWB := true } :: markCanWB youngest_inst xs

def commitStores (u : LSQUnit) (youngest_inst : Nat) : LSQUnit :=
  { u with storeQueue := markCanWB youngest_inst u.storeQueue }

def popCompleted (u : LSQUnit) : LSQUnit :=
  { u with
    head := u.head + (u.storeQueue.takeWhile (·.completed)).length
    storeQueue := u.storeQueue.dropWhile (·.completed) }

def completeStore (u : LSQUnit) (store_idx : Nat) : LSQUnit × List (Event cfg) :=
  match u.entry store_idx with
  | none => (u, [])
  | some _ =>
    let u' := u.modifyEntry store_idx fun x => { x with completed := true }
    (if store_idx = u.head then u'.popCompleted else u', [.sqFree (store_idx % cfg.sq_entries)])

/-- One round of the loop: the store at `storeWBIdx` is sent to memory, or completes at once if it has no data. -/
def writebackStores (u : LSQUnit) : LSQUnit × List (Event cfg) :=
  let idx := u.storeWBIdx
  match u.entry idx with
  | none => (u, [])
  | some x =>
    if !x.canWB then (u, [])
    else if x.size = 0 then completeStore { u with storeWBIdx := idx + 1 } idx
    else
      ({ u.modifyEntry idx fun x => { x with committed := true } with storeWBIdx := idx + 1 },
        [.sqConsume (idx % cfg.sq_entries)])

/-- The stores younger than `squashed_num` leave the back of the queue, up to the first that has committed. -/
def squash (u : LSQUnit) (squashed_num : Nat) : LSQUnit :=
  { u with storeQueue := u.storeQueue.rdropWhile fun x => decide (squashed_num < x.seqNum) && !x.canWB }

end LSQUnit

/-- What happens to the store side; `cycle` is a cycle of the analyzer. -/
inductive LsqOp where
  | insertStore (seqNum : Nat)
  | write (store_idx size : Nat)
  | commitStores (youngest_inst : Nat)
  | writebackStores
  | completeStore (store_idx : Nat)
  | squash (squashed_num : Nat)
  | cycle
  deriving DecidableEq, Repr

def LSQUnit.step {cfg : Config} (u : LSQUnit) : LsqOp → LSQUnit × List (Event cfg)
  | .insertStore n => (u.insertStore cfg n, [])
  | .write i n => u.write i n
  | .commitStores n => (u.commitStores n, [])
  | .writebackStores => u.writebackStores
  | .completeStore i => u.completeStore i
  | .squash n => (u.squash n, [])
  | .cycle => (u, [.tick])

def LSQUnit.deliver {cfg : Config} (u : LSQUnit) : List LsqOp → List (Event cfg)
  | [] => []
  | o :: os =>
    let r : LSQUnit × List (Event cfg) := u.step o
    r.2 ++ r.1.deliver os

end GemFI.Cov
