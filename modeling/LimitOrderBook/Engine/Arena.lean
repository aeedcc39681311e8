import LimitOrderBook.Domain
import LimitOrderBook.Lib.Machine

/-!
# `Engine.Arena` — slab storage for resting orders (`src/engine/arena.rs`)

Orders live in one array and are referred to by index; freed slots are threaded on a free list and
reused. A step that would panic in the source is a `Fault` here, so panic freedom is a statement
about results.
-/

namespace LimitOrderBook

/-- Position of a resting order inside the arena. -/
abbrev Slot := UInt32

/-- The ways a call can fail to return: the arena's panics, and a loop that runs past its bound. -/
inductive Fault where
  | indexOutOfBounds
  | readVacantSlot
  | removedVacantSlot
  | freeListOccupied
  | outOfFuel
deriving DecidableEq, Repr

/-- A resting order plus its neighbours in the price-level queue. -/
structure OrderNode where
  order : Order
  prev : Option Slot
  next : Option Slot
deriving DecidableEq, Repr

inductive Entry where
  | occupied (node : OrderNode)
  | vacant (nextFree : Option Slot)
deriving DecidableEq, Repr

structure OrderArena where
  entries : Array Entry := #[]
  freeHead : Option Slot := none
  len : Nat := 0
deriving DecidableEq, Repr

namespace OrderArena

/-- Store an order and return its slot. Reuses a free slot when one exists; otherwise the new slot is
    the old length cast to `u32`, which drops the high bits. -/
def insert (a : OrderArena) (order : Order) : Except Fault (OrderArena × Slot) :=
  let node : OrderNode := ⟨order, none, none⟩
  match a.freeHead with
  | none =>
      .ok ({ a with entries := a.entries.push (.occupied node), len := a.len + 1 },
        UInt32.ofNat a.entries.size)
  | some slot =>
      match a.entries[slot.toNat]? with
      | none => .error .indexOutOfBounds
      -- the `unreachable!` of the source
      | some (.occupied _) => .error .freeListOccupied
      | some (.vacant nextFree) =>
          .ok ({ entries := a.entries.set! slot.toNat (.occupied node), freeHead := nextFree,
                 len := a.len + 1 }, slot)

/-- Take an order out and put its slot on the free list. -/
def remove (a : OrderArena) (slot : Slot) : Except Fault (OrderArena × Order) :=
  match a.entries[slot.toNat]? with
  | none => .error .indexOutOfBounds
  | some (.vacant _) => .error .removedVacantSlot
  | some (.occupied node) =>
      .ok ({ entries := a.entries.set! slot.toNat (.vacant a.freeHead), freeHead := some slot,
             len := a.len - 1 }, node.order)

def get (a : OrderArena) (slot : Slot) : Except Fault OrderNode :=
  match a.entries[slot.toNat]? with
  | none => .error .indexOutOfBounds
  | some (.vacant _) => .error .readVacantSlot
  | some (.occupied node) => .ok node

/-- `get_mut`, with the write the caller makes through the reference. -/
def getMut (a : OrderArena) (slot : Slot) (write : OrderNode → OrderNode) :
    Except Fault OrderArena :=
  match a.entries[slot.toNat]? with
  | none => .error .indexOutOfBounds
  | some (.vacant _) => .error .readVacantSlot
  | some (.occupied node) =>
      .ok { a with entries := a.entries.set! slot.toNat (.occupied (write node)) }

end OrderArena
end LimitOrderBook
