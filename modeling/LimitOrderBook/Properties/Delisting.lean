import Mathlib.Data.List.Chain
import LimitOrderBook.Api.Instruments

/-!
# `Properties.Delisting` — the status of an instrument under concurrent requests

The status of an instrument under concurrent requests. Any number of clients run `updateInstrumentStatus` on one row,
in any interleaving and with any failures. Commits are serial (`Lib.RowLock`), so every committed status follows from
the one before it by an allowed transition, and no allowed transition leaves `delisted`.

`alone_updateInstrumentStatus` evaluates the transaction on a row, and `fails_updateInstrumentStatus` says what its
client returns when a statement fails. `committedStatuses` is the chain of statuses, `isChain_of_serial` that its
steps are allowed, and `of_answer` what an answer says about the version that it was read from. `delisting_is_final`
collects them for every schedule.
-/

namespace LimitOrderBook

open RowLock

/-! ## The request alone -/

/-- The request run alone: an allowed transition commits the row with the new status and returns it; anything
    else returns an error and commits nothing. -/
theorem alone_updateInstrumentStatus (request : UpdateInstrumentStatusRequest)
    (row : Option InstrumentResponse) :
    (updateInstrumentStatus request).alone row none =
      match row with
      | none => (none, .error instrumentNotFound)
      | some r =>
          if validTransition r.status request.status then
            (some { r with status := request.status }, .ok { r with status := request.status })
          else (none, .error invalidStatusTransition) := by
  cases row with
  | none => rfl
  | some r =>
      cases hvalid : validTransition r.status request.status <;>
        simp [updateInstrumentStatus, Transaction.alone, hvalid]

/-- A statement that fails is answered with one error, whichever it is. -/
theorem fails_updateInstrumentStatus {request : UpdateInstrumentStatusRequest}
    {out : Except ApiError InstrumentResponse} (h : (updateInstrumentStatus request).Fails out) :
    out = .error failedToUpdateStatus := by
  rcases h with h | h | ⟨row, h⟩
  · exact h
  · exact h
  · dsimp only at h
    split at h
    · exact h.elim
    · split at h
      · exact h.elim
      · rcases h with h | ⟨r, h⟩
        · exact h
        · exact h

/-- What the request commits when it runs alone. -/
theorem of_alone_some {request : UpdateInstrumentStatusRequest} {row : Option InstrumentResponse}
    {r' : InstrumentResponse} (h : ((updateInstrumentStatus request).alone row none).1 = some r') :
    ∃ r, row = some r ∧ validTransition r.status request.status = true
      ∧ r' = { r with status := request.status } := by
  rw [alone_updateInstrumentStatus] at h
  split at h
  · cases h
  · rename_i r
    split at h
    · rename_i hvalid
      exact ⟨r, rfl, hvalid, (Option.some.inj h).symm⟩
    · cases h

/-! ## The transitions -/

/-- An allowed transition to be read as "`later` may follow `earlier`". -/
def Allowed (earlier later : MarketStatus) : Prop := validTransition earlier later = true

instance : IsTrans MarketStatus Allowed where
  trans a b c := by unfold Allowed; cases a <;> cases b <;> cases c <;> decide

theorem Allowed.of_delisted {later : MarketStatus} (h : Allowed .delisted later) : later = .delisted := by
  cases later with
  | active => cases h
  | paused => cases h
  | delisted => rfl

/-! ## Every interleaving -/

/-- The committed values of the status, the first one first. -/
def committedStatuses {ι ω : Type} (s : System ι InstrumentResponse ω) : List MarketStatus :=
  (s.versions.map fun version => version.2.status).reverse

variable {ι : Type} {request : ι → UpdateInstrumentStatusRequest}

/-- Versions that follow from one another by requests follow by allowed transitions. -/
theorem isChain_of_serial :
    ∀ {versions : List (Option ι × InstrumentResponse)},
      System.Serial (fun i => updateInstrumentStatus (request i)) versions →
      (versions.map fun version => version.2.status).IsChain (flip Allowed)
  | [], _ => .nil
  | [_], _ => .singleton _
  | (none, _) :: _ :: _, h => by cases h
  | (some i, r') :: (j, r) :: older, h => by
      obtain ⟨hcommit, hserial⟩ := h
      obtain ⟨_, hrow, hvalid, rfl⟩ := of_alone_some hcommit
      obtain rfl := Option.some.inj hrow
      exact .cons_cons hvalid (isChain_of_serial hserial)

/-- A client that returned something else than the failure of a statement did what its request does alone on
    one of the versions. -/
theorem of_answer [DecidableEq ι] {s : System ι InstrumentResponse (Except ApiError InstrumentResponse)}
    (hinv : System.Inv (fun i => updateInstrumentStatus (request i)) s) {i : ι}
    {out : Except ApiError InstrumentResponse} (hout : s.answer i = some out)
    (hfailed : out ≠ .error failedToUpdateStatus) :
    ∃ older written, older <:+ s.versions
      ∧ (updateInstrumentStatus (request i)).alone (top older) none = (written, out)
      ∧ (∀ r, written = some r → (some i, r) ∈ s.versions)
      ∧ (written = none → ∀ r, (some i, r) ∉ s.versions) := by
  have hgood := hinv.good i
  unfold System.answer at hout
  split at hout
  · rename_i how out' hphase
    obtain rfl := Option.some.inj hout
    rw [hphase] at hgood
    cases how with
    | failed => exact absurd (fails_updateInstrumentStatus hgood) hfailed
    | committed =>
        obtain ⟨older, written, hold, halone, hversion, hno⟩ := hgood
        exact ⟨older, written, hold, halone, fun r hr => (hversion r hr).subset List.mem_cons_self, hno⟩
    | rolledBack =>
        obtain ⟨⟨older, hold, halone⟩, hno⟩ := hgood
        exact ⟨older, none, hold, halone, fun r hr => (by cases hr), fun _ => hno⟩
  · cases hout

theorem mem_of_top {ρ : Type} {versions : List (Option ι × ρ)} {r : ρ} (h : top versions = some r) :
    ∃ version ∈ versions, version.2 = r := by
  obtain ⟨version, hhead, rfl⟩ := Option.map_eq_some_iff.mp h
  exact ⟨version, List.mem_of_mem_head? hhead, rfl⟩

/-- **Delisting is final under concurrency.** In every interleaving the committed statuses only follow the
    allowed transitions, nothing follows `delisted`, a request that returns `Ok` had its status committed,
    and a request that is rejected as an invalid transition met one and committed nothing. -/
theorem delisting_is_final [DecidableEq ι] (request : ι → UpdateInstrumentStatusRequest)
    (row : Option InstrumentResponse) (schedule : List (ι × Action)) :
    let s := (System.initial (fun i => updateInstrumentStatus (request i)) row).run schedule
    (committedStatuses s).IsChain (fun earlier later => validTransition earlier later = true)
      ∧ (∀ earlier later, committedStatuses s = earlier ++ .delisted :: later →
          ∀ status ∈ later, status = .delisted)
      ∧ (∀ i instrument, s.answer i = some (.ok instrument) →
          (some i, instrument) ∈ s.versions ∧ instrument.status = (request i).status)
      ∧ ∀ i, s.answer i = some (.error invalidStatusTransition) →
          (∀ instrument, (some i, instrument) ∉ s.versions)
            ∧ ∃ version ∈ s.versions, validTransition version.2.status (request i).status = false := by
  intro s
  have hinv := System.inv_run (fun i => updateInstrumentStatus (request i)) row schedule
  have hchain : (committedStatuses s).IsChain Allowed :=
    List.isChain_reverse.mpr (isChain_of_serial hinv.serial)
  refine ⟨hchain, ?_, ?_, ?_⟩
  · intro earlier later hstatuses status hmem
    have hpairs := List.isChain_iff_pairwise.mp hchain
    rw [hstatuses, List.pairwise_append] at hpairs
    obtain ⟨-, hpairs, -⟩ := hpairs
    exact (List.rel_of_pairwise_cons hpairs hmem).of_delisted
  · intro i instrument hanswer
    obtain ⟨older, written, -, halone, hversion, -⟩ := of_answer hinv hanswer (by simp)
    rw [alone_updateInstrumentStatus] at halone
    split at halone
    · cases halone
    · split at halone
      · cases halone
        exact ⟨hversion _ rfl, rfl⟩
      · cases halone
  · intro i hanswer
    obtain ⟨older, written, hold, halone, -, hno⟩ := of_answer hinv hanswer (by decide)
    rw [alone_updateInstrumentStatus] at halone
    split at halone
    · cases halone
    · rename_i r htop
      split at halone
      · cases halone
      · rename_i hinvalid
        cases halone
        obtain ⟨version, hmem, rfl⟩ := mem_of_top htop
        exact ⟨hno rfl, version, hold.subset hmem, Bool.eq_false_iff.mpr hinvalid⟩

-- client `true` waits for the delisting of client `false`, then reads `delisted` and is rejected
example :
    let request := fun i => ⟨if i then MarketStatus.active else .delisted⟩
    let row := ⟨0, "BTC-USDT", .crypto, "BTC", "USDT", 2, 8, 1, 1, .paused, 0⟩
    let s := (System.initial (fun i => updateInstrumentStatus (request i)) (some row)).run
      ([false, true, false, true, false, false, true, true].map fun i => (i, .proceed))
    committedStatuses s = [.paused, .delisted] ∧ s.answer true = some (.error invalidStatusTransition) := by
  decide

end LimitOrderBook
