import Hypern.Auth.Guards
import Hypern.Lib.History
import Hypern.Lib.Table
import Mathlib.Data.List.GetD

/-! `RBACPolicy`: roles with their sets of permissions. The sets are objects, and some of the
methods hand sets out that the caller may then change as it likes. -/

namespace Hypern.Auth

open Lib Python Hypern.Core

/-- `heap` has every set that was made, and `lent` the ones that a caller has got. -/
structure RBACPolicy where
  roles : Table String Nat
  heap : List (Finset String)
  lent : List Nat

namespace RBACPolicy

variable (s : RBACPolicy)

/-- The members of `_roles.get(role, set())`. -/
def permissions (role : String) : Finset String :=
  match s.roles.lookup role with
  | some ref => s.heap.getD ref ∅
  | none => ∅

/-- `_roles[role] = set(permissions)` -/
def define (role : String) (permissions : Finset String) : RBACPolicy :=
  { s with roles := s.roles.insert role s.heap.length, heap := s.heap ++ [permissions] }

/-- A change of the set that stands in `_roles`. -/
def update (role : String) (f : Finset String → Finset String) : RBACPolicy :=
  match s.roles.lookup role with
  | some ref => { s with heap := s.heap.modify ref f }
  | none => s

/-- A new set for the caller. -/
def lend (permissions : Finset String) : Nat × RBACPolicy :=
  (s.heap.length,
    { s with heap := s.heap ++ [permissions], lent := s.heap.length :: s.lent })

def new (roles : Table String (List String)) : RBACPolicy :=
  roles.entries.foldl (fun s e => s.define e.1 e.2.toFinset) ⟨∅, [], []⟩

def addRole (role : String) (permissions : Option (List String)) : RBACPolicy :=
  s.define role (permissions.getD []).toFinset

def removeRole (role : String) : Bool × RBACPolicy :=
  ((s.roles.lookup role).isSome, { s with roles := s.roles.erase role })

def grant (role : String) (permissions : List String) : RBACPolicy :=
  let s := if role ∈ s.roles then s else s.define role ∅
  s.update role (· ∪ permissions.toFinset)

def revoke (role : String) (permissions : List String) : RBACPolicy :=
  s.update role (· \ permissions.toFinset)

def getPermissions (role : String) : Nat × RBACPolicy := s.lend (s.permissions role)

/-- The set that the loop of `get_all_permissions` collects. -/
def allPermissions (roles : List String) : Finset String :=
  roles.foldl (fun perms role => perms ∪ s.permissions role) ∅

def getAllPermissions (roles : List String) : Nat × RBACPolicy := s.lend (s.allPermissions roles)

def hasPermission (userRoles : List String) (permission : String) : Bool :=
  decide (permission ∈ s.allPermissions userRoles)

def hasAnyPermission (userRoles permissions : List String) : Bool :=
  decide (s.allPermissions userRoles ∩ permissions.toFinset ≠ ∅)

def hasAllPermissions (userRoles permissions : List String) : Bool :=
  decide (permissions.toFinset ⊆ s.allPermissions userRoles)

/-- The roles among the members of a set, of which a policy knows strings only. -/
def roleNames (members : List HashKey) : List String :=
  members.filterMap fun
    | .str role => some role
    | _ => none

def requiresPermission (permissions : List String) (matchAll : Bool) (ctx : Context Json) :
    Except Stop (Context Json) :=
  match extractList "roles" ctx with
  | none | some .null => .error authenticationRequired
  | some userRoles =>
    match userRoles.toSet with
    | .error e => .error (.raised e)
    | .ok members =>
      let ok := if matchAll then s.hasAllPermissions (roleNames members) permissions
        else s.hasAnyPermission (roleNames members) permissions
      forbidUnless ok "permission(s)" permissions ctx

end RBACPolicy

/-! ## Runs -/

/-- `mutate` is what a caller does to a set that it has got. -/
inductive RbacCall
  | addRole (role : String) (permissions : Option (List String))
  | removeRole (role : String)
  | grant (role : String) (permissions : List String)
  | revoke (role : String) (permissions : List String)
  | getPermissions (role : String)
  | getAllPermissions (roles : List String)
  | mutate (ref : Nat) (permissions : Finset String)

namespace RBACPolicy

def step (s : RBACPolicy) : RbacCall → Option RBACPolicy
  | .addRole role permissions => some (s.addRole role permissions)
  | .removeRole role => some (s.removeRole role).2
  | .grant role permissions => some (s.grant role permissions)
  | .revoke role permissions => some (s.revoke role permissions)
  | .getPermissions role => some (s.getPermissions role).2
  | .getAllPermissions roles => some (s.getAllPermissions roles).2
  | .mutate ref permissions =>
    if ref ∈ s.lent then some { s with heap := s.heap.set ref permissions } else none

/-! ## What the calls say -/

/-- Whether the call grants the permission to the role or takes it away, if it does either. -/
def verdict (role permission : String) : RbacCall → Option Bool
  | .addRole r permissions =>
    if r = role then some (decide (permission ∈ permissions.getD [])) else none
  | .removeRole r => if r = role then some false else none
  | .grant r permissions => if r = role ∧ permission ∈ permissions then some true else none
  | .revoke r permissions => if r = role ∧ permission ∈ permissions then some false else none
  | _ => none

def initially (roles : Table String (List String)) (role permission : String) : Bool :=
  match roles.lookup role with
  | some permissions => decide (permission ∈ permissions)
  | none => false

/-- What the last call that is about the role and the permission says, or else the initial
mapping. -/
def granted (roles : Table String (List String)) (calls : List RbacCall) (role permission : String) :
    Bool :=
  lastVerdict (verdict role permission) (initially roles role permission) calls

/-- Some role of the user has the permission. -/
def Held (roles : Table String (List String)) (calls : List RbacCall) (userRoles : List String)
    (permission : String) : Prop :=
  ∃ role ∈ userRoles, granted roles calls role permission = true

/-! ## The sets of a policy are its own -/

structure Owned (s : RBACPolicy) : Prop where
  made : ∀ role ref, s.roles.lookup role = some ref → ref < s.heap.length
  apart : ∀ role role' ref, s.roles.lookup role = some ref → s.roles.lookup role' = some ref →
    role = role'
  kept : ∀ role ref, s.roles.lookup role = some ref → ref ∉ s.lent
  lent : ∀ ref ∈ s.lent, ref < s.heap.length

variable {s : RBACPolicy}

theorem Owned.define (h : s.Owned) (role : String) (perms : Finset String) :
    (s.define role perms).Owned ∧
      ∀ other, (s.define role perms).permissions other =
        if other = role then perms else s.permissions other := by
  have hlookup : ∀ other, (s.define role perms).roles.lookup other =
      if other = role then some s.heap.length else s.roles.lookup other :=
    fun other => Table.lookup_insert_eq ..
  have hlength : (s.define role perms).heap.length = s.heap.length + 1 := List.length_append
  refine ⟨⟨fun other ref href => ?_, fun r r' ref hr hr' => ?_, fun other ref href hlent => ?_,
    fun ref href => ?_⟩, fun other => ?_⟩
  · rw [hlookup] at href
    rw [hlength]
    split_ifs at href
    · rw [← Option.some.inj href]
      exact Nat.lt_succ_self _
    · exact Nat.lt_succ_of_lt (h.made other ref href)
  · rw [hlookup] at hr hr'
    split_ifs at hr hr' with hrole hrole' hrole'
    · rw [hrole, hrole']
    · have hlt := h.made r' ref hr'
      rw [← Option.some.inj hr] at hlt
      exact absurd hlt (Nat.lt_irrefl _)
    · have hlt := h.made r ref hr
      rw [← Option.some.inj hr'] at hlt
      exact absurd hlt (Nat.lt_irrefl _)
    · exact h.apart r r' ref hr hr'
  · rw [hlookup] at href
    split_ifs at href
    · have hlt := h.lent ref hlent
      rw [← Option.some.inj href] at hlt
      exact absurd hlt (Nat.lt_irrefl _)
    · exact h.kept other ref href hlent
  · rw [hlength]
    exact Nat.lt_succ_of_lt (h.lent ref href)
  · unfold permissions
    rw [hlookup]
    split_ifs with hother
    · exact (List.getD_append_right _ _ _ _ (Nat.le_refl _)).trans (by rw [Nat.sub_self]; rfl)
    · cases href : s.roles.lookup other with
      | none => rfl
      | some ref => exact List.getD_append _ _ _ _ (h.made other ref href)

theorem getD_modify (heap : List (Finset String)) (ref i : Nat) (f : Finset String → Finset String)
    (hlt : ref < heap.length) :
    (heap.modify ref f).getD i ∅ = if i = ref then f (heap.getD ref ∅) else heap.getD i ∅ := by
  rw [List.getD_eq_getElem?_getD, List.getElem?_modify]
  by_cases h : i = ref
  · rw [if_pos h, h, List.getD_eq_getElem?_getD, List.getElem?_eq_getElem hlt]
    simp only [if_pos]
    rfl
  · rw [if_neg h, List.getD_eq_getElem?_getD]
    simp only [if_neg (Ne.symm h)]
    cases heap[i]? <;> rfl

/-- Only one role sees a change of its set. -/
theorem Owned.update (h : s.Owned) (role : String) (f : Finset String → Finset String) :
    (s.update role f).Owned ∧ ∀ other, (s.update role f).permissions other =
      if other = role ∧ role ∈ s.roles then f (s.permissions other) else s.permissions other := by
  unfold RBACPolicy.update
  cases hrole : s.roles.lookup role with
  | none =>
    refine ⟨h, fun other => ?_⟩
    rw [if_neg]
    rintro ⟨-, hmem⟩
    exact absurd hmem (AList.lookup_eq_none.mp hrole)
  | some ref =>
    have hmem : role ∈ s.roles := Table.mem_iff_lookup.mpr ⟨ref, hrole⟩
    have hlength : (s.heap.modify ref f).length = s.heap.length := List.length_modify ..
    refine ⟨⟨fun r i hr => ?_, h.apart, h.kept, fun i hi => ?_⟩, fun other => ?_⟩
    · exact hlength.symm ▸ h.made r i hr
    · exact hlength.symm ▸ h.lent i hi
    · unfold permissions
      dsimp only
      cases hother : s.roles.lookup other with
      | none =>
        rw [if_neg]
        rintro ⟨rfl, -⟩
        rw [hrole] at hother
        cases hother
      | some i =>
        dsimp only
        rw [getD_modify _ _ _ _ (h.made role ref hrole)]
        by_cases heq : other = role
        · rw [heq, hrole] at hother
          rw [if_pos (Option.some.inj hother).symm, if_pos ⟨heq, hmem⟩, Option.some.inj hother]
        · rw [if_neg, if_neg fun hboth => heq hboth.1]
          rintro rfl
          exact heq (h.apart other role i hother hrole)

theorem Owned.lend (h : s.Owned) (perms : Finset String) :
    (s.lend perms).2.Owned ∧ ∀ role, (s.lend perms).2.permissions role = s.permissions role := by
  have hlength : (s.lend perms).2.heap.length = s.heap.length + 1 := List.length_append
  refine ⟨⟨fun role ref href => ?_, h.apart, fun role ref href hlent => ?_, fun ref hlent => ?_⟩,
    fun role => ?_⟩
  · rw [hlength]
    exact Nat.lt_succ_of_lt (h.made role ref href)
  · rcases List.mem_cons.mp hlent with heq | hold
    · exact absurd (h.made role ref href) (Nat.not_lt.mpr (Nat.le_of_eq heq.symm))
    · exact h.kept role ref href hold
  · rw [hlength]
    rcases List.mem_cons.mp hlent with heq | hold
    · rw [heq]
      exact Nat.lt_succ_self _
    · exact Nat.lt_succ_of_lt (h.lent ref hold)
  · unfold permissions RBACPolicy.lend
    dsimp only
    cases href : s.roles.lookup role with
    | none => rfl
    | some ref => exact List.getD_append _ _ _ _ (h.made role ref href)

/-- A caller that changes a set it has got changes no role. -/
theorem Owned.mutate (h : s.Owned) {ref : Nat} (hlent : ref ∈ s.lent) (perms : Finset String) :
    Owned { s with heap := s.heap.set ref perms } ∧
      ∀ role, permissions { s with heap := s.heap.set ref perms } role = s.permissions role := by
  have hlength : (s.heap.set ref perms).length = s.heap.length := List.length_set
  refine ⟨⟨fun role i hi => ?_, h.apart, h.kept, fun i hi => ?_⟩, fun role => ?_⟩
  · exact hlength.symm ▸ h.made role i hi
  · exact hlength.symm ▸ h.lent i hi
  · unfold permissions
    dsimp only
    cases hrole : s.roles.lookup role with
    | none => rfl
    | some i =>
      have hne : ref ≠ i := fun heq => h.kept role i hrole (heq ▸ hlent)
      dsimp only
      rw [List.getD_eq_getElem?_getD, List.getElem?_set_ne hne, ← List.getD_eq_getElem?_getD]

theorem Owned.removeRole (h : s.Owned) (role : String) :
    (s.removeRole role).2.Owned ∧ ∀ other, (s.removeRole role).2.permissions other =
      if other = role then ∅ else s.permissions other := by
  have hlookup : ∀ other, (s.removeRole role).2.roles.lookup other =
      if other = role then none else s.roles.lookup other := fun other => Table.lookup_erase_eq ..
  refine ⟨⟨fun r i hr => ?_, fun r r' i hr hr' => ?_, fun r i hr => ?_, h.lent⟩, fun other => ?_⟩
  · rw [hlookup] at hr
    split_ifs at hr
    exact h.made r i hr
  · rw [hlookup] at hr hr'
    split_ifs at hr hr'
    exact h.apart r r' i hr hr'
  · rw [hlookup] at hr
    split_ifs at hr
    exact h.kept r i hr
  · unfold permissions
    rw [hlookup]
    split_ifs <;> rfl

theorem Owned.grant (h : s.Owned) (role : String) (perms : List String) :
    (s.grant role perms).Owned ∧ ∀ other, (s.grant role perms).permissions other =
      if other = role then s.permissions other ∪ perms.toFinset else s.permissions other := by
  unfold RBACPolicy.grant
  dsimp only
  split_ifs with hmem
  · obtain ⟨howned, hperms⟩ := h.update role (· ∪ perms.toFinset)
    refine ⟨howned, fun other => ?_⟩
    rw [hperms]
    exact if_congr (and_iff_left hmem) rfl rfl
  · obtain ⟨hdefined, hempty⟩ := h.define role ∅
    obtain ⟨howned, hperms⟩ := hdefined.update role (· ∪ perms.toFinset)
    have hmem' : role ∈ (s.define role ∅).roles := AList.mem_insert _ |>.mpr (.inl rfl)
    refine ⟨howned, fun other => ?_⟩
    rw [hperms, hempty, if_congr (and_iff_left hmem') rfl rfl]
    split_ifs with hother
    · have hnone : s.permissions other = ∅ := by
        unfold permissions
        rw [hother, AList.lookup_eq_none.mpr hmem]
      rw [hnone]
    · rfl

theorem Owned.revoke (h : s.Owned) (role : String) (perms : List String) :
    (s.revoke role perms).Owned ∧ ∀ other, (s.revoke role perms).permissions other =
      if other = role then s.permissions other \ perms.toFinset else s.permissions other := by
  obtain ⟨howned, hperms⟩ := h.update role (· \ perms.toFinset)
  refine ⟨howned, fun other => (hperms other).trans ?_⟩
  by_cases hother : other = role
  · by_cases hmem : role ∈ s.roles
    · rw [if_pos ⟨hother, hmem⟩, if_pos hother]
    · have hnone : s.permissions other = ∅ := by
        unfold permissions
        rw [hother, AList.lookup_eq_none.mpr hmem]
      rw [if_neg fun hboth => hmem hboth.2, if_pos hother, hnone, Finset.empty_sdiff]
  · rw [if_neg fun hboth => hother hboth.1, if_neg hother]

/-- The set of one role is replaced. -/
theorem decide_mem_replaced {role r permission : String} {new old : Finset String} :
    decide (permission ∈ if role = r then new else old) =
      (if r = role then some (decide (permission ∈ new)) else none).getD
        (decide (permission ∈ old)) := by
  by_cases hrole : r = role
  · rw [if_pos hrole, if_pos hrole.symm, Option.getD_some]
  · rw [if_neg hrole, if_neg (Ne.symm hrole), Option.getD_none]

/-- A call changes of the grants exactly those that it is about. -/
theorem step_owned (h : s.Owned) {call : RbacCall} {t : RBACPolicy} (hstep : s.step call = some t) :
    t.Owned ∧ ∀ role permission, decide (permission ∈ t.permissions role) =
      (verdict role permission call).getD (decide (permission ∈ s.permissions role)) := by
  cases call with
  | addRole r perms =>
    cases hstep
    obtain ⟨howned, hperms⟩ := h.define r (perms.getD []).toFinset
    refine ⟨howned, fun role permission => ?_⟩
    unfold RBACPolicy.addRole verdict
    rw [hperms, decide_mem_replaced]
    simp only [List.mem_toFinset]
  | removeRole r =>
    cases hstep
    obtain ⟨howned, hperms⟩ := h.removeRole r
    refine ⟨howned, fun role permission => ?_⟩
    unfold verdict
    rw [hperms, decide_mem_replaced]
    simp only [Finset.notMem_empty, decide_false]
  | grant r perms =>
    cases hstep
    obtain ⟨howned, hperms⟩ := h.grant r perms
    refine ⟨howned, fun role permission => ?_⟩
    unfold verdict
    rw [hperms]
    simp only [@eq_comm _ r role]
    by_cases hrole : role = r <;> by_cases hmem : permission ∈ perms <;> simp [hrole, hmem]
  | revoke r perms =>
    cases hstep
    obtain ⟨howned, hperms⟩ := h.revoke r perms
    refine ⟨howned, fun role permission => ?_⟩
    unfold verdict
    rw [hperms]
    simp only [@eq_comm _ r role]
    by_cases hrole : role = r <;> by_cases hmem : permission ∈ perms <;> simp [hrole, hmem]
  | getPermissions r =>
    cases hstep
    -- a reading call hands out a copy, which is nobody else's
    obtain ⟨howned, hperms⟩ := h.lend (s.permissions r)
    exact ⟨howned, fun role permission =>
      congrArg (fun perms => decide (permission ∈ perms)) (hperms role)⟩
  | getAllPermissions rs =>
    cases hstep
    obtain ⟨howned, hperms⟩ := h.lend (s.allPermissions rs)
    exact ⟨howned, fun role permission =>
      congrArg (fun perms => decide (permission ∈ perms)) (hperms role)⟩
  | mutate ref perms =>
    obtain ⟨hlent, hstep⟩ := Option.ite_none_right_eq_some.mp hstep
    cases hstep
    obtain ⟨howned, hperms⟩ := h.mutate hlent perms
    exact ⟨howned, fun role permission =>
      congrArg (fun perms => decide (permission ∈ perms)) (hperms role)⟩

theorem exec_owned {calls : List RbacCall} {t : RBACPolicy} (h : s.Owned)
    (hexec : exec step s calls = some t) :
    t.Owned ∧ ∀ role permission, decide (permission ∈ t.permissions role) =
      lastVerdict (verdict role permission) (decide (permission ∈ s.permissions role)) calls := by
  have hpair : ∀ role permission, t.Owned ∧ decide (permission ∈ t.permissions role) =
      lastVerdict (verdict role permission) (decide (permission ∈ s.permissions role)) calls := by
    intro role permission
    have hstep : ∀ s call t, Owned s → s.step call = some t → t.Owned ∧
        decide (permission ∈ t.permissions role) =
          (verdict role permission call).getD (decide (permission ∈ s.permissions role)) :=
      fun s call t hs ht => ⟨(step_owned hs ht).1, (step_owned hs ht).2 role permission⟩
    exact exec_lastVerdict hstep h hexec
  exact ⟨(hpair "" "").1, fun role permission => (hpair role permission).2⟩

/-- The roles of the mapping come in with sets of their own, in any order. -/
theorem foldl_define (entries : List (Σ _ : String, List String)) (h : s.Owned)
    (hnodup : entries.NodupKeys) :
    (entries.foldl (fun s e => s.define e.1 e.2.toFinset) s).Owned ∧
      ∀ role, (entries.foldl (fun s e => s.define e.1 e.2.toFinset) s).permissions role =
        ((entries.dlookup role).map List.toFinset).getD (s.permissions role) := by
  induction entries generalizing s with
  | nil => exact ⟨h, fun _ => rfl⟩
  | cons e entries ih =>
    obtain ⟨hnew, hrest⟩ := List.nodupKeys_cons.mp hnodup
    obtain ⟨hdefined, hperms⟩ := h.define e.1 e.2.toFinset
    obtain ⟨howned, hih⟩ := ih hdefined hrest
    refine ⟨howned, fun role => (hih role).trans ?_⟩
    rw [hperms]
    by_cases hrole : role = e.1
    · rw [hrole, List.dlookup_eq_none.mpr hnew, if_pos rfl, List.dlookup_cons_eq]
      rfl
    · rw [if_neg hrole, List.dlookup_cons_ne _ _ hrole]

theorem new_owned (roles : Table String (List String)) :
    (new roles).Owned ∧ ∀ role permission,
      decide (permission ∈ (new roles).permissions role) = initially roles role permission := by
  have hempty : Owned ⟨∅, [], []⟩ := ⟨nofun, nofun, nofun, nofun⟩
  obtain ⟨howned, hperms⟩ := foldl_define roles.entries hempty roles.nodupKeys
  refine ⟨howned, fun role permission => ?_⟩
  unfold new initially
  rw [hperms]
  change _ = match roles.entries.dlookup role with | some perms => _ | none => _
  cases roles.entries.dlookup role with
  | none => rfl
  | some perms => exact decide_eq_decide.mpr List.mem_toFinset

theorem mem_allPermissions {userRoles : List String} {permission : String} :
    permission ∈ s.allPermissions userRoles ↔
      ∃ role ∈ userRoles, permission ∈ s.permissions role := by
  have hfold : ∀ perms, permission ∈
      userRoles.foldl (fun perms role => perms ∪ s.permissions role) perms ↔
        permission ∈ perms ∨ ∃ role ∈ userRoles, permission ∈ s.permissions role := by
    induction userRoles with
    | nil => simp
    | cons role userRoles ih =>
      intro perms
      rw [List.foldl_cons, ih, Finset.mem_union, List.exists_mem_cons_iff, or_assoc]
  exact (hfold ∅).trans (or_iff_right (Finset.notMem_empty _))

theorem mem_allPermissions_iff_held {roles : Table String (List String)} {calls : List RbacCall}
    (hexec : exec step (new roles) calls = some s) {userRoles : List String} {permission : String} :
    permission ∈ s.allPermissions userRoles ↔ Held roles calls userRoles permission := by
  obtain ⟨hnew, hinit⟩ := new_owned roles
  obtain ⟨-, hgranted⟩ := exec_owned hnew hexec
  rw [mem_allPermissions]
  refine exists_congr fun role => and_congr_right fun _ => ?_
  have hdecide := hgranted role permission
  rw [hinit] at hdecide
  exact decide_eq_true_iff.symm.trans (Eq.congr_left hdecide)

theorem hashKeys_str (userRoles : List String) :
    Json.hashKeys (userRoles.map .str) = .ok (userRoles.map .str) := by
  induction userRoles with
  | nil => rfl
  | cons role userRoles ih =>
    simp only [List.map_cons, Json.hashKeys, ih]
    rfl

theorem roleNames_map (userRoles : List String) : roleNames (userRoles.map .str) = userRoles := by
  induction userRoles with
  | nil => rfl
  | cons role userRoles ih => exact congrArg (role :: ·) ih

theorem hasAllPermissions_iff {userRoles required : List String} :
    s.hasAllPermissions userRoles required = true ↔
      ∀ permission ∈ required, permission ∈ s.allPermissions userRoles := by
  refine decide_eq_true_iff.trans (Finset.subset_iff.trans ?_)
  exact forall_congr' fun _ => imp_congr_left List.mem_toFinset

theorem hasAnyPermission_iff {userRoles required : List String} :
    s.hasAnyPermission userRoles required = true ↔
      ∃ permission ∈ required, permission ∈ s.allPermissions userRoles := by
  refine decide_eq_true_iff.trans (Finset.nonempty_iff_ne_empty.symm.trans ?_)
  refine exists_congr fun permission => ?_
  rw [Finset.mem_inter, List.mem_toFinset, and_comm]

theorem requiresPermission_eq_ok_iff {userRoles : List String} {ctx : Context Json}
    (hroles : extractList "roles" ctx = some (.list (userRoles.map .str)))
    (required : List String) (matchAll : Bool) :
    s.requiresPermission required matchAll ctx = .ok ctx ↔
      if matchAll then ∀ permission ∈ required, permission ∈ s.allPermissions userRoles
      else ∃ permission ∈ required, permission ∈ s.allPermissions userRoles := by
  have hforbid : ∀ ok, forbidUnless ok "permission(s)" required ctx = .ok ctx ↔ ok = true := by
    intro ok
    cases ok <;> simp [forbidUnless]
  unfold requiresPermission
  rw [hroles]
  simp only [Json.toSet, hashKeys_str, roleNames_map]
  rw [hforbid]
  cases matchAll with
  | true => exact hasAllPermissions_iff
  | false => exact hasAnyPermission_iff

/-- Decisions follow the last call about each role and permission; what callers do to the sets
they have got changes none. -/
theorem decisions_follow_grants (roles : Table String (List String)) (calls : List RbacCall)
    (hexec : exec step (new roles) calls = some s) :
    (∀ userRoles permission,
      s.hasPermission userRoles permission = true ↔ Held roles calls userRoles permission) ∧
    (∀ userRoles required matchAll ctx,
      extractList "roles" ctx = some (.list (userRoles.map .str)) →
      (s.requiresPermission required matchAll ctx = .ok ctx ↔
        if matchAll then ∀ permission ∈ required, Held roles calls userRoles permission
        else ∃ permission ∈ required, Held roles calls userRoles permission)) ∧
    ∀ ref permissions t, s.step (.mutate ref permissions) = some t →
      ∀ userRoles, t.allPermissions userRoles = s.allPermissions userRoles := by
  have hheld : ∀ userRoles permission, permission ∈ s.allPermissions userRoles ↔
      Held roles calls userRoles permission := fun _ _ => mem_allPermissions_iff_held hexec
  refine ⟨fun userRoles permission => ?_, fun userRoles required matchAll ctx hroles => ?_,
    fun ref permissions t ht userRoles => ?_⟩
  · exact decide_eq_true_iff.trans (hheld userRoles permission)
  · rw [requiresPermission_eq_ok_iff hroles]
    simp only [hheld]
  · have howned := (exec_owned (new_owned roles).1 hexec).1
    obtain ⟨-, hsame⟩ := step_owned howned ht
    refine Finset.ext fun permission => ?_
    rw [mem_allPermissions, mem_allPermissions]
    exact exists_congr fun role => and_congr_right fun _ => decide_eq_decide.mp (hsame role permission)

/-- A caller empties the set it has got and takes away a permission that was just granted. -/
def sampleCalls : List RbacCall :=
  [.grant "viewer" ["users:write"], .getPermissions "viewer", .mutate 1 ∅,
    .revoke "viewer" ["users:write"]]

def sampleRoles : Table String (List String) := AList.insert "viewer" ["users:read"] ∅

theorem viewer_keeps_reading : ∃ s, exec step (new sampleRoles) sampleCalls = some s ∧
    s.hasPermission ["viewer"] "users:read" = true ∧
    s.hasPermission ["viewer"] "users:write" = false := by
  refine ⟨_, rfl, ?_, ?_⟩
  · refine ((decisions_follow_grants sampleRoles sampleCalls rfl).1 _ _).mpr ?_
    exact ⟨"viewer", List.mem_cons_self, by decide⟩
  · refine Bool.eq_false_iff.mpr fun hwrite => ?_
    obtain ⟨role, hrole, hgranted⟩ :=
      ((decisions_follow_grants sampleRoles sampleCalls rfl).1 _ _).mp hwrite
    rw [List.mem_singleton.mp hrole] at hgranted
    revert hgranted
    decide

end RBACPolicy

end Hypern.Auth
