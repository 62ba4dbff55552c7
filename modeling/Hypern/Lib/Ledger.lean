import Mathlib.Logic.Function.Basic
import Hypern.Lib.Run

/-! Counters that are kept apart from what they count. A name has an account with a balance; what
really stands on the accounts is a total that other steps may change. -/

namespace Hypern.Lib

/-- `entries` gives the account of a name and its balance, `opened` how many accounts there have
been. -/
structure Ledger (K : Type*) where
  entries : K → Option (Nat × Nat)
  total : Nat → Nat
  opened : Nat

namespace Ledger

variable {K : Type*}

/-- Every balance is what stands on its account. -/
def Exact (b : Ledger K) : Prop :=
  ∀ name account balance, b.entries name = some (account, balance) → balance = b.total account

structure Sound (b : Ledger K) : Prop where
  opened : ∀ name account balance, b.entries name = some (account, balance) → account < b.opened
  unused : ∀ account, b.opened ≤ account → b.total account = 0
  apart : ∀ name name' account balance balance', b.entries name = some (account, balance) →
    b.entries name' = some (account, balance') → name = name'

/-- Nothing is counted; at most names are given up. -/
structure Keeps (b b' : Ledger K) : Prop where
  entries : ∀ name, b'.entries name = b.entries name ∨ b'.entries name = none
  total : ∀ account, b'.total account = b.total account
  opened : b.opened ≤ b'.opened

variable {b b' b'' : Ledger K}

theorem Keeps.refl (b : Ledger K) : Keeps b b := ⟨fun _ => .inl rfl, fun _ => rfl, Nat.le_refl _⟩

theorem Keeps.trans (h : Keeps b b') (h' : Keeps b' b'') : Keeps b b'' := by
  refine ⟨fun name => ?_, fun account => (h'.total account).trans (h.total account),
    Nat.le_trans h.opened h'.opened⟩
  rcases h'.entries name with heq | hnone
  · rw [heq]
    exact h.entries name
  · exact .inr hnone

variable [DecidableEq K] {name other : K}

theorem update_eq_some_iff {α : Type*} {f : K → Option α} {v w : α} :
    Function.update f name (some v) other = some w ↔
      other = name ∧ v = w ∨ other ≠ name ∧ f other = some w := by
  by_cases h : other = name
  · rw [h, Function.update_self, Option.some.injEq]
    simp
  · rw [Function.update_of_ne h]
    simp [h]

/-- A name that is written again as it stands. -/
theorem Keeps.rewrite {entry : Nat × Nat} (hentry : b.entries name = some entry)
    (entries : b'.entries = Function.update b.entries name (some entry))
    (total : ∀ account, b'.total account = b.total account) (opened : b.opened ≤ b'.opened) :
    Keeps b b' := by
  refine ⟨fun other => .inl ?_, total, opened⟩
  rw [entries, ← hentry, Function.update_eq_self]

theorem Keeps.erase (entries : b'.entries = Function.update b.entries name none)
    (total : ∀ account, b'.total account = b.total account) (opened : b.opened ≤ b'.opened) :
    Keeps b b' := by
  refine ⟨fun other => ?_, total, opened⟩
  rw [entries]
  by_cases h : other = name
  · rw [h, Function.update_self]
    exact .inr rfl
  · exact .inl (Function.update_of_ne h _ _)

/-- What a step can do to a ledger. `good` is the condition under which it leaves the balances
right, which only a drift can fail to do. -/
inductive Change (b b' : Ledger K) (good : Prop) : Prop
  | keep (h : Keeps b b') (hgood : good)
  | opens (name : K) (entries : b'.entries = Function.update b.entries name (some (b.opened, 0)))
    (total : b'.total = b.total) (opened : b'.opened = b.opened + 1) (hgood : good)
  | book (name : K) (account balance amount : Nat) (entry : b.entries name = some (account, balance))
    (entries : b'.entries = Function.update b.entries name (some (account, balance + amount)))
    (total : b'.total = Function.update b.total account (b.total account + amount))
    (opened : b'.opened = b.opened) (hgood : good)
  /-- The total of one account changes, and no balance. -/
  | drift (account : Nat) (haccount : account < b.opened) (entries : b'.entries = b.entries)
    (total : ∀ other, other ≠ account → b'.total other = b.total other)
    (opened : b'.opened = b.opened)
    (hgood : good ↔ ∀ name balance, b.entries name = some (account, balance) →
      b'.total account = b.total account)

variable {good : Prop}

theorem Change.sound (h : Change b b' good) (hb : Sound b) : Sound b' := by
  cases h with
  | keep h =>
    -- no entry is new, so all three facts are those of before
    have hback : ∀ name v, b'.entries name = some v → b.entries name = some v := by
      intro name v hv
      rcases h.entries name with heq | hnone
      · rwa [← heq]
      · exact nomatch hnone.symm.trans hv
    refine ⟨fun name account balance hv => ?_, fun account hle => ?_,
      fun name name' account balance balance' hv hv' => ?_⟩
    · exact Nat.lt_of_lt_of_le (hb.opened name account balance (hback _ _ hv)) h.opened
    · rw [h.total]
      exact hb.unused account (Nat.le_trans h.opened hle)
    · exact hb.apart name name' account balance balance' (hback _ _ hv) (hback _ _ hv')
  | opens name entries total opened =>
    have hnew : ∀ other account balance, b'.entries other = some (account, balance) →
        other = name ∧ account = b.opened ∨ other ≠ name ∧ b.entries other = some (account, balance) := by
      intro other account balance hv
      rw [entries] at hv
      refine (update_eq_some_iff.mp hv).imp_left fun h => ⟨h.1, ?_⟩
      exact (congrArg Prod.fst h.2).symm
    refine ⟨fun other account balance hv => ?_, fun account hle => ?_,
      fun other other' account balance balance' hv hv' => ?_⟩
    · rcases hnew _ _ _ hv with ⟨-, rfl⟩ | ⟨-, hold⟩
      · omega
      · have hlt := hb.opened other account balance hold
        omega
    · rw [total]
      exact hb.unused account (by omega)
    · -- a new account is not one of the old ones
      rcases hnew _ _ _ hv with ⟨hn, rfl⟩ | ⟨-, hold⟩ <;>
        rcases hnew _ _ _ hv' with ⟨hn', hacc⟩ | ⟨-, hold'⟩
      · rw [hn, hn']
      · exact absurd (hb.opened _ _ _ hold') (Nat.lt_irrefl _)
      · rw [hacc] at hold
        exact absurd (hb.opened _ _ _ hold) (Nat.lt_irrefl _)
      · exact hb.apart other other' account balance balance' hold hold'
  | book name account balance amount entry entries total opened =>
    -- the entry keeps its account, and only the balance in it is another
    have hacc : account < b.opened := hb.opened name account balance entry
    have hback : ∀ other account' balance', b'.entries other = some (account', balance') →
        ∃ old, b.entries other = some (account', old) := by
      intro other account' balance' hv
      rw [entries] at hv
      rcases update_eq_some_iff.mp hv with ⟨rfl, hsame⟩ | ⟨-, hold⟩
      · obtain rfl : account = account' := congrArg Prod.fst hsame
        exact ⟨balance, entry⟩
      · exact ⟨balance', hold⟩
    refine ⟨fun other account' balance' hv => ?_, fun account' hle => ?_,
      fun other other' account' _ _ hv hv' => ?_⟩
    · obtain ⟨old, hold⟩ := hback _ _ _ hv
      rw [opened]
      exact hb.opened _ _ _ hold
    · rw [opened] at hle
      rw [total, Function.update_of_ne (by omega)]
      exact hb.unused account' hle
    · obtain ⟨old, hold⟩ := hback _ _ _ hv
      obtain ⟨old', hold'⟩ := hback _ _ _ hv'
      exact hb.apart other other' account' old old' hold hold'
  | drift account haccount entries total opened =>
    refine ⟨fun other account' balance hv => ?_, fun account' hle => ?_,
      fun other other' account' balance balance' hv hv' => ?_⟩
    · rw [entries] at hv
      rw [opened]
      exact hb.opened _ _ _ hv
    · rw [opened] at hle
      rw [total account' (by omega)]
      exact hb.unused account' hle
    · rw [entries] at hv hv'
      exact hb.apart _ _ _ _ _ hv hv'

/-- From exact balances a change leads to exact balances just if it is good. -/
theorem Change.exact_iff (h : Change b b' good) (hb : Sound b) (he : Exact b) : Exact b' ↔ good := by
  cases h with
  | keep h hgood =>
    refine iff_of_true (fun name account balance hv => ?_) hgood
    rcases h.entries name with heq | hnone
    · rw [h.total]
      exact he name account balance (heq ▸ hv)
    · exact nomatch hnone.symm.trans hv
  | opens name entries total opened hgood =>
    refine iff_of_true (fun other account balance hv => ?_) hgood
    rw [entries] at hv
    rw [total]
    rcases update_eq_some_iff.mp hv with ⟨-, hnew⟩ | ⟨-, hold⟩
    · obtain ⟨rfl, rfl⟩ := Prod.mk.inj hnew
      exact (hb.unused _ (Nat.le_refl _)).symm
    · exact he other account balance hold
  | book name account balance amount entry entries total opened hgood =>
    refine iff_of_true (fun other account' balance' hv => ?_) hgood
    rw [entries] at hv
    rw [total]
    rcases update_eq_some_iff.mp hv with ⟨-, hnew⟩ | ⟨hother, hold⟩
    · obtain ⟨rfl, rfl⟩ := Prod.mk.inj hnew
      rw [Function.update_self, he name account balance entry]
    -- an account has one name, so the total that was booked is the one of this entry
    · have hne : account' ≠ account := by
        rintro rfl
        exact hother (hb.apart other name account' balance' balance hold entry)
      rw [Function.update_of_ne hne]
      exact he other account' balance' hold
  | drift account haccount entries total opened hgood =>
    rw [hgood]
    constructor
    · intro he' name balance hv
      have hv' : b'.entries name = some (account, balance) := by rwa [entries]
      rw [← he name account balance hv, ← he' name account balance hv']
    · intro hsame name account' balance hv
      rw [entries] at hv
      by_cases hacc : account' = account
      · subst hacc
        rw [hsame name balance hv]
        exact he name account' balance hv
      · rw [total account' hacc]
        exact he name account' balance hv

/-- The rule for a system that carries a ledger: the balances are right all along exactly those
runs whose steps are all good. -/
theorem always_exact_iff {S A : Type*} {step : S → A → Option S} (s : S) (as : List A)
    (book : S → Ledger K) (J : S → Prop) (C : S → A → Prop)
    (hJ : ∀ s a t, J s → step s a = some t → J t)
    (hchange : ∀ s a t, J s → step s a = some t → Change (book s) (book t) (C s a))
    (hs : J s) (hsound : Sound (book s)) (hexact : Exact (book s)) :
    Always step (fun s => Exact (book s)) s as ↔
      Along step (fun s a => ∀ t, step s a = some t → C s a) s as := by
  refine always_iff_along (fun s => J s ∧ Sound (book s)) hexact ⟨hs, hsound⟩ ?_ ?_
  · intro s a t h ht
    exact ⟨hJ s a t h.1 ht, (hchange s a t h.1 ht).sound h.2⟩
  · intro s a t h he ht
    exact (hchange s a t h.1 ht).exact_iff h.2 he

end Ledger

end Hypern.Lib
