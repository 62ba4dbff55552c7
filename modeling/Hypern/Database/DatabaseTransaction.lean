import Hypern.Lib.Run
import Mathlib.Algebra.Order.Group.Nat
import Mathlib.Data.List.Defs

/-! `DatabaseTransaction` of `transaction.rs` over `operation.rs`: the calls on one transaction
whose handle is in a shared `Option`. What the server answers is a parameter of a call. -/

namespace Hypern.Database

open Lib

/-! ## The server -/

/-- What a statement returns with the writes it made, or how it failed. Not every failure comes
from the server and aborts the transaction there. -/
inductive Answer (W α : Type)
  | done (value : α) (writes : List W)
  | failed (message : String) (aborts : Bool)

structure ServerTransaction (W : Type) where
  performed : List W
  aborted : Bool
  committed : List W

namespace ServerTransaction

variable {W α : Type} (t : ServerTransaction W)

def run (answer : Answer W α) : Except String α × ServerTransaction W :=
  if t.aborted then
    (.error "current transaction is aborted, commands ignored until end of transaction block", t)
  else
    match answer with
    | .done value writes => (.ok value, { t with performed := t.performed ++ writes })
    | .failed message aborts => (.error message, { t with aborted := aborts })

/-- The server rolls an aborted transaction back and reports no error. -/
def commit (answer : Except String Unit) : Except String Unit × ServerTransaction W :=
  if t.aborted then (.ok (), t)
  else
    match answer with
    | .ok () => (.ok (), { t with committed := t.performed })
    | .error message => (.error message, t)

end ServerTransaction

/-! ## The calls -/

/-- How a call from Python ends; a panic arrives there as a `PanicException`. -/
inductive CallResult (α : Type)
  | ok (value : α)
  | err (message : String)
  | panic

namespace CallResult

variable {α : Type}

def ofExcept : Except String α → CallResult α
  | .ok value => .ok value
  | .error message => .err message

def void : CallResult α → CallResult Unit
  | .ok _ => .ok ()
  | .err message => .err message
  | .panic => .panic

end CallResult

/-- `held` says whether the shared `Option` is `Some`. A handle that is dropped rolls the
transaction back. `ended` is observed only: `commit` or `rollback` was called. -/
structure DatabaseTransaction (W : Type) where
  held : Bool
  server : ServerTransaction W
  ended : Bool

/-- The parameters of one execution in `bulk_change`: whether they can be bound, and the answer. -/
structure ParamSet (W : Type) where
  bind : Except String Unit
  answer : Answer W Nat

variable {W R : Type}

/-- The loop over the rows in `stream_data`. -/
def streamRows (chunkSize : Nat) :
    List (Except String R) → List (List R) → List R → Except String (List (List R))
  | [], chunks, current => .ok (if current.isEmpty then chunks else chunks ++ [current])
  | .error message :: _, _, _ => .error message
  | .ok row :: rows, chunks, current =>
    let current := current ++ [row]
    if chunkSize ≤ current.length then streamRows chunkSize rows (chunks ++ [current]) []
    else streamRows chunkSize rows chunks current

/-- The inner loop of `bulk_change`. -/
def changeBatch : List (ParamSet W) → Nat → ServerTransaction W →
    Except String Nat × ServerTransaction W
  | [], total, t => (.ok total, t)
  | set :: sets, total, t =>
    match set.bind with
    | .error message => (.error message, t)
    | .ok () =>
      match t.run set.answer with
      | (.ok affected, t') => changeBatch sets (total + affected) t'
      | (.error message, t') => (.error message, t')

/-- The outer loop. -/
def changeBatches : List (List (ParamSet W)) → Nat → ServerTransaction W →
    Except String Nat × ServerTransaction W
  | [], total, t => (.ok total, t)
  | batch :: batches, total, t =>
    match changeBatch batch total t with
    | (.ok total, t') => changeBatches batches total t'
    | (.error message, t') => (.error message, t')

namespace DatabaseTransaction

/-- `from_transaction` with a transaction that was just begun. -/
def opened : DatabaseTransaction W := ⟨true, ⟨[], false, []⟩, false⟩

variable (s : DatabaseTransaction W) (bind : Except String Unit)

/-- How `execute`, `fetch_all` and `stream_data` begin: the parameters are bound, and then the
`Option` is unwrapped. -/
def withTransaction {α : Type}
    (body : ServerTransaction W → CallResult α × DatabaseTransaction W) :
    CallResult α × DatabaseTransaction W :=
  match bind with
  | .error message => (.err message, s)
  | .ok () => if s.held then body s.server else (.panic, s)

def execute (answer : Answer W Nat) : CallResult Nat × DatabaseTransaction W :=
  s.withTransaction bind fun t =>
    let r := t.run answer
    (.ofExcept r.1, { s with server := r.2 })

/-- A row is an error if its values cannot be made Python objects. -/
def fetchAll (answer : Answer W (List (Except String R))) :
    CallResult (List R) × DatabaseTransaction W :=
  s.withTransaction bind fun t =>
    let r := t.run answer
    (.ofExcept (r.1 >>= fun rows => rows.mapM id), { s with server := r.2 })

/-- The handle is taken out of the `Option`, and dropped when the call returns. -/
def streamData (chunkSize : Nat) (answer : Answer W (List (Except String R))) :
    CallResult (List (List R)) × DatabaseTransaction W :=
  s.withTransaction bind fun t =>
    let r := t.run answer
    (.ofExcept (r.1 >>= fun rows => streamRows chunkSize rows [] []),
      { s with held := false, server := r.2 })

def bulkChange (params : List (ParamSet W)) (batchSize : Nat) :
    CallResult Nat × DatabaseTransaction W :=
  if s.held then
    -- `chunks` panics if the size is zero
    if batchSize = 0 then (.panic, s)
    else
      let r := changeBatches (params.toChunks batchSize) 0 s.server
      (.ofExcept r.1, { s with server := r.2 })
  else (.err "No active transaction", s)

/-- The answer of the server is dropped. -/
def commit (answer : Except String Unit) : CallResult Unit × DatabaseTransaction W :=
  if s.held then (.ok (), ⟨false, (s.server.commit answer).2, true⟩)
  else (.panic, { s with ended := true })

def rollback (_answer : Except String Unit) : CallResult Unit × DatabaseTransaction W :=
  if s.held then (.ok (), ⟨false, s.server, true⟩) else (.panic, { s with ended := true })

end DatabaseTransaction

inductive TransactionCall (W R : Type)
  | execute (bind : Except String Unit) (answer : Answer W Nat)
  | fetchAll (bind : Except String Unit) (answer : Answer W (List (Except String R)))
  | streamData (bind : Except String Unit) (chunkSize : Nat)
      (answer : Answer W (List (Except String R)))
  | bulkChange (params : List (ParamSet W)) (batchSize : Nat)
  | commit (answer : Except String Unit)
  | rollback (answer : Except String Unit)

namespace TransactionCall

def apply (s : DatabaseTransaction W) :
    TransactionCall W R → CallResult Unit × DatabaseTransaction W
  | .execute bind answer => (s.execute bind answer).map .void id
  | .fetchAll bind answer => (s.fetchAll bind answer).map .void id
  | .streamData bind chunkSize answer => (s.streamData bind chunkSize answer).map .void id
  | .bulkChange params batchSize => (s.bulkChange params batchSize).map .void id
  | .commit answer => s.commit answer
  | .rollback answer => s.rollback answer

def step (s : DatabaseTransaction W) (call : TransactionCall W R) :
    Option (DatabaseTransaction W) :=
  some (call.apply s).2

def isRead : TransactionCall W R → Bool
  | .fetchAll .. | .streamData .. => true
  | _ => false

def isCommit : TransactionCall W R → Bool
  | .commit _ => true
  | _ => false

end TransactionCall

/-! ## The protocol -/

/-- No panic; a read leaves the transaction open; a commit that returns has committed every write;
and after the end there are only errors. -/
structure KeepsProtocol (s : DatabaseTransaction W) (call : TransactionCall W R) : Prop where
  noPanic : (call.apply s).1 ≠ .panic
  readKeeps : call.isRead = true → s.held = true → (call.apply s).2.held = true
  committed : call.isCommit = true → (call.apply s).1 = .ok () →
    (call.apply s).2.server.committed = (call.apply s).2.server.performed
  afterEnd : s.ended = true → ∃ message, (call.apply s).1 = .err message

/-- What a call needs for that: parameters that can be bound are given to `execute` and
`fetch_all` only while the transaction is held and to `stream_data` never, no batch is empty, and
a commit finds a transaction that the server will commit, or one without writes. -/
def Safe (s : DatabaseTransaction W) : TransactionCall W R → Prop
  | .execute bind _ | .fetchAll bind _ => bind = .ok () → s.held = true
  | .streamData bind _ _ => bind ≠ .ok ()
  | .bulkChange _ batchSize => s.held = true → 1 ≤ batchSize
  | .commit answer => s.held = true ∧
      (s.server.performed = [] ∨ s.server.aborted = false ∧ answer = .ok ())
  | .rollback _ => s.held = true

/-- A transaction that is held has not ended, and nothing of it is committed yet. -/
structure DatabaseTransaction.Open (s : DatabaseTransaction W) : Prop where
  notEnded : s.held = true → s.ended = false
  uncommitted : s.held = true → s.server.committed = []

/-! ## Statements commit nothing -/

namespace ServerTransaction

variable {α : Type} (t : ServerTransaction W)

theorem run_committed (answer : Answer W α) : (t.run answer).2.committed = t.committed := by
  unfold run
  split_ifs
  · rfl
  · cases answer <;> rfl

theorem changeBatch_committed (sets : List (ParamSet W)) (total : Nat) :
    (changeBatch sets total t).2.committed = t.committed := by
  induction sets generalizing total t with
  | nil => rfl
  | cons set sets ih =>
    unfold changeBatch
    cases set.bind with
    | error message => rfl
    | ok _ =>
      have hrun := t.run_committed set.answer
      dsimp only
      generalize t.run set.answer = r at hrun ⊢
      obtain ⟨_ | affected, t'⟩ := r
      · exact hrun
      · exact (ih t' (total + affected)).trans hrun

theorem changeBatches_committed (batches : List (List (ParamSet W))) (total : Nat) :
    (changeBatches batches total t).2.committed = t.committed := by
  induction batches generalizing total t with
  | nil => rfl
  | cons batch batches ih =>
    unfold changeBatches
    have hbatch := t.changeBatch_committed batch total
    generalize changeBatch batch total t = r at hbatch ⊢
    obtain ⟨_ | total', t'⟩ := r
    · exact hbatch
    · exact (ih t' total').trans hbatch

/-- After a commit that the server was asked for, everything is committed, or nothing. -/
theorem commit_all_iff (h : t.committed = []) (answer : Except String Unit) :
    (t.commit answer).2.committed = (t.commit answer).2.performed ↔
      t.performed = [] ∨ t.aborted = false ∧ answer = .ok () := by
  unfold commit
  cases haborted : t.aborted with
  | true => simp [h, eq_comm]
  | false =>
    cases answer with
    | error message => simp [h, eq_comm]
    | ok _ => simp

end ServerTransaction

/-! ## One call -/

namespace DatabaseTransaction

variable {s : DatabaseTransaction W}

theorem open_opened : (opened : DatabaseTransaction W).Open := ⟨fun _ => rfl, fun _ => rfl⟩

theorem Open.of_closed (h : s.held = false) : s.Open :=
  ⟨fun hheld => absurd hheld (ne_true_of_eq_false h),
    fun hheld => absurd hheld (ne_true_of_eq_false h)⟩

theorem Open.statement (h : s.Open) {t : ServerTransaction W}
    (ht : t.committed = s.server.committed) : Open { s with server := t } :=
  ⟨h.notEnded, fun hheld => ht.trans (h.uncommitted hheld)⟩

theorem withTransaction_cases {α : Type} (s : DatabaseTransaction W) (bind : Except String Unit)
    (body : ServerTransaction W → CallResult α × DatabaseTransaction W) :
    (∃ message, bind = .error message ∧ s.withTransaction bind body = (.err message, s)) ∨
      (bind = .ok () ∧ s.held = false ∧ s.withTransaction bind body = (.panic, s)) ∨
      (bind = .ok () ∧ s.held = true ∧ s.withTransaction bind body = body s.server) := by
  unfold withTransaction
  cases bind with
  | error message => exact .inl ⟨message, rfl, rfl⟩
  | ok _ =>
    cases hheld : s.held with
    | false => exact .inr (.inl ⟨rfl, rfl, rfl⟩)
    | true => exact .inr (.inr ⟨rfl, rfl, rfl⟩)

theorem Open.withTransaction {α : Type} (h : s.Open) (bind : Except String Unit)
    {body : ServerTransaction W → CallResult α × DatabaseTransaction W}
    (hbody : (body s.server).2.Open) : (s.withTransaction bind body).2.Open := by
  rcases withTransaction_cases s bind body with ⟨message, -, heq⟩ | ⟨-, -, heq⟩ | ⟨-, -, heq⟩
  · rwa [heq]
  · rwa [heq]
  · rwa [heq]

theorem Open.apply (h : s.Open) (call : TransactionCall W R) : (call.apply s).2.Open := by
  cases call with
  | execute bind answer =>
    change (s.execute bind answer).2.Open
    unfold execute
    exact h.withTransaction bind (h.statement (s.server.run_committed answer))
  | fetchAll bind answer =>
    change (s.fetchAll bind answer).2.Open
    unfold fetchAll
    exact h.withTransaction bind (h.statement (s.server.run_committed answer))
  | streamData bind chunkSize answer =>
    change (s.streamData bind chunkSize answer).2.Open
    unfold streamData
    exact h.withTransaction bind (.of_closed rfl)
  | bulkChange params batchSize =>
    change (s.bulkChange params batchSize).2.Open
    unfold bulkChange
    split_ifs
    · exact h
    · exact h.statement (s.server.changeBatches_committed _ _)
    · exact h
  | commit answer =>
    unfold TransactionCall.apply commit
    split_ifs with hheld
    · exact .of_closed rfl
    · exact .of_closed (Bool.eq_false_iff.mpr hheld)
  | rollback answer =>
    unfold TransactionCall.apply rollback
    split_ifs with hheld
    · exact .of_closed rfl
    · exact .of_closed (Bool.eq_false_iff.mpr hheld)

end DatabaseTransaction

open DatabaseTransaction

variable {s : DatabaseTransaction W} {call : TransactionCall W R}

theorem void_ofExcept_ne_panic {α : Type} (r : Except String α) :
    (CallResult.ofExcept r).void ≠ .panic := by
  cases r <;> nofun

/-- A call whose parameters cannot be bound fails before it looks at the transaction. -/
theorem keepsProtocol_of_err {message : String} (h : call.apply s = (.err message, s)) :
    KeepsProtocol s call where
  noPanic := by
    rw [h]
    nofun
  readKeeps _ hheld := by
    rw [h]
    exact hheld
  committed _ hok := by
    rw [h] at hok
    cases hok
  afterEnd _ := ⟨message, by rw [h]⟩

theorem not_keepsProtocol_of_panic (h : (call.apply s).1 = .panic) : ¬ KeepsProtocol s call :=
  fun hkeeps => hkeeps.noPanic h

/-- A statement on a transaction that stays held. -/
theorem keepsProtocol_of_statement (hopen : s.Open) (hheld : s.held = true)
    (hpanic : (call.apply s).1 ≠ .panic) (hkept : (call.apply s).2.held = true)
    (hcommit : call.isCommit = false) : KeepsProtocol s call where
  noPanic := hpanic
  readKeeps _ _ := hkept
  committed hc := absurd hc (ne_true_of_eq_false hcommit)
  afterEnd hended := absurd hended (ne_true_of_eq_false (hopen.notEnded hheld))

/-- The calls that need the transaction and leave it where it is. -/
theorem keepsProtocol_withTransaction_iff {α : Type} {bind : Except String Unit}
    {body : ServerTransaction W → CallResult α × DatabaseTransaction W} (hopen : s.Open)
    (happly : call.apply s = (s.withTransaction bind body).map .void id)
    (hpanic : (body s.server).1.void ≠ .panic) (hkept : (body s.server).2.held = s.held)
    (hcommit : call.isCommit = false) :
    KeepsProtocol s call ↔ (bind = .ok () → s.held = true) := by
  rcases withTransaction_cases s bind body with
    ⟨message, rfl, heq⟩ | ⟨rfl, hheld, heq⟩ | ⟨rfl, hheld, heq⟩
  all_goals rw [heq] at happly
  · exact iff_of_true (keepsProtocol_of_err happly) nofun
  · refine iff_of_false (not_keepsProtocol_of_panic (congrArg Prod.fst happly)) fun h => ?_
    exact Bool.false_ne_true (hheld.symm.trans (h rfl))
  · refine iff_of_true (keepsProtocol_of_statement hopen hheld ?_ ?_ hcommit) fun _ => hheld
    · rw [happly]
      exact hpanic
    · rw [happly]
      exact hkept.trans hheld

theorem keepsProtocol_streamData_iff {bind : Except String Unit} {chunkSize : Nat}
    {answer : Answer W (List (Except String R))} :
    KeepsProtocol s (.streamData bind chunkSize answer) ↔ bind ≠ .ok () := by
  constructor
  · rintro hkeeps rfl
    cases hheld : s.held with
    | true =>
      have hkept := hkeeps.readKeeps rfl hheld
      unfold TransactionCall.apply streamData withTransaction at hkept
      rw [hheld] at hkept
      exact Bool.false_ne_true hkept
    | false =>
      refine hkeeps.noPanic ?_
      unfold TransactionCall.apply streamData withTransaction
      rw [hheld]
      rfl
  · intro hbind
    cases bind with
    | error message => exact keepsProtocol_of_err rfl
    | ok _ => exact absurd rfl hbind

theorem keepsProtocol_bulkChange_iff (hopen : s.Open) {params : List (ParamSet W)}
    {batchSize : Nat} :
    KeepsProtocol s (.bulkChange params batchSize : TransactionCall W R) ↔
      (s.held = true → 1 ≤ batchSize) := by
  have happly : TransactionCall.apply s (.bulkChange params batchSize : TransactionCall W R) =
      (s.bulkChange params batchSize).map .void id := rfl
  unfold bulkChange at happly
  cases hheld : s.held with
  | false =>
    rw [hheld, if_neg Bool.false_ne_true] at happly
    exact iff_of_true (keepsProtocol_of_err happly) nofun
  | true =>
    rw [hheld, if_pos rfl] at happly
    split_ifs at happly with hsize
    · refine iff_of_false (not_keepsProtocol_of_panic (congrArg Prod.fst happly)) fun h => ?_
      exact Nat.one_ne_zero (Nat.le_zero.mp (hsize ▸ h rfl))
    · refine iff_of_true (keepsProtocol_of_statement hopen hheld ?_ ?_ rfl) fun _ =>
        Nat.one_le_iff_ne_zero.mpr hsize
      · rw [happly]
        exact void_ofExcept_ne_panic _
      · rw [happly]
        rfl

theorem keepsProtocol_commit_iff (hopen : s.Open) {answer : Except String Unit} :
    KeepsProtocol s (.commit answer : TransactionCall W R) ↔ s.held = true ∧
      (s.server.performed = [] ∨ s.server.aborted = false ∧ answer = .ok ()) := by
  have happly : TransactionCall.apply s (.commit answer : TransactionCall W R) =
      s.commit answer := rfl
  unfold commit at happly
  cases hheld : s.held with
  | false =>
    rw [hheld, if_neg Bool.false_ne_true] at happly
    refine iff_of_false (not_keepsProtocol_of_panic (congrArg Prod.fst happly)) fun h => ?_
    exact Bool.false_ne_true h.1
  | true =>
    rw [hheld, if_pos rfl] at happly
    rw [and_iff_right rfl, ← s.server.commit_all_iff (hopen.uncommitted hheld) answer]
    constructor
    · intro hkeeps
      have hcommitted := hkeeps.committed rfl (congrArg Prod.fst happly)
      rwa [happly] at hcommitted
    · intro hall
      refine ⟨?_, nofun, fun _ _ => ?_, fun hended => ?_⟩
      · rw [happly]
        nofun
      · rw [happly]
        exact hall
      · exact absurd hended (ne_true_of_eq_false (hopen.notEnded hheld))

theorem keepsProtocol_rollback_iff (hopen : s.Open) {answer : Except String Unit} :
    KeepsProtocol s (.rollback answer : TransactionCall W R) ↔ s.held = true := by
  have happly : TransactionCall.apply s (.rollback answer : TransactionCall W R) =
      s.rollback answer := rfl
  unfold rollback at happly
  cases hheld : s.held with
  | false =>
    rw [hheld, if_neg Bool.false_ne_true] at happly
    exact iff_of_false (not_keepsProtocol_of_panic (congrArg Prod.fst happly)) Bool.false_ne_true
  | true =>
    rw [hheld, if_pos rfl] at happly
    refine iff_of_true ⟨?_, nofun, nofun, fun hended => ?_⟩ rfl
    · rw [happly]
      nofun
    · exact absurd hended (ne_true_of_eq_false (hopen.notEnded hheld))

theorem keepsProtocol_iff (hopen : s.Open) (call : TransactionCall W R) :
    KeepsProtocol s call ↔ Safe s call := by
  cases call with
  | execute bind answer =>
    have happly : TransactionCall.apply s (.execute bind answer : TransactionCall W R) =
        (s.execute bind answer).map .void id := rfl
    exact keepsProtocol_withTransaction_iff hopen happly (void_ofExcept_ne_panic _) rfl rfl
  | fetchAll bind answer =>
    have happly : TransactionCall.apply s (.fetchAll bind answer : TransactionCall W R) =
        (s.fetchAll bind answer).map .void id := rfl
    exact keepsProtocol_withTransaction_iff hopen happly (void_ofExcept_ne_panic _) rfl rfl
  | streamData bind chunkSize answer => exact keepsProtocol_streamData_iff
  | bulkChange params batchSize => exact keepsProtocol_bulkChange_iff hopen
  | commit answer => exact keepsProtocol_commit_iff hopen
  | rollback answer => exact keepsProtocol_rollback_iff hopen

/-- A run keeps the protocol exactly as far as its calls are safe. -/
theorem protocol_iff_safe (calls : List (TransactionCall W R)) :
    Along TransactionCall.step KeepsProtocol opened calls ↔
      Along TransactionCall.step Safe opened calls := by
  have hstep : ∀ (s : DatabaseTransaction W) (call : TransactionCall W R) t, s.Open →
      TransactionCall.step s call = some t → t.Open := by
    intro s call t hopen ht
    cases ht
    exact hopen.apply call
  constructor
  · intro h
    exact h.strengthen (fun s call t hopen _ => hstep s call t hopen)
      (fun s call hopen => (keepsProtocol_iff hopen call).mp) open_opened
  · intro h
    exact h.strengthen (fun s call t hopen _ => hstep s call t hopen)
      (fun s call hopen => (keepsProtocol_iff hopen call).mpr) open_opened

/-- A read ends the transaction, and the commit after it panics. -/
theorem stream_then_commit_panics :
    ¬ ∀ calls : List (TransactionCall String String),
      Along TransactionCall.step KeepsProtocol opened calls := by
  intro h
  have hrun := h [.streamData (.ok ()) 10 (.done [.ok "row"] []), .commit (.ok ())]
  exact (hrun.2 _ rfl).1.noPanic rfl

end Hypern.Database
