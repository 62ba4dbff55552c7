import Hypern.Lib.Recency
import Hypern.Lib.Run
import Hypern.Python.Object

/-! `MultiTenantDatabase`: one pool for each tenant, found through two registries. The ordered
dictionary `_tenants` has the tenants in the order of use, and the class-level dictionaries of
`Database` have the pools under the tenants' aliases. -/

namespace Hypern.Database

open Lib Python

inductive Driver
  | postgres | mysql | sqlite
  deriving DecidableEq

structure DbConfig where
  url : String
  maxSize : Nat
  driver : Driver

/-- The class-level dictionaries of `Database`; `globalPools` are the aliases in `GLOBAL_POOLS`. -/
structure Registry where
  databases : String → Option DbConfig
  initializedPools : String → Option Bool
  anyPools : String → Bool
  globalPools : String → Bool

namespace Registry

def empty : Registry := ⟨fun _ => none, fun _ => none, fun _ => false, fun _ => false⟩

/-- `detected` is what `_detect_driver(url)` returns or raises. -/
def configure (r : Registry) (url : String) (maxSize : Nat) (dbAlias : String)
    (detected : Except PyExc Driver) : Except PyExc Registry :=
  if (r.databases dbAlias).isSome then
    .error (runtimeError ("Database with alias '" ++ dbAlias ++
      "' already configured. Call Database.close('" ++ dbAlias ++ "') first to reconfigure."))
  else
    match detected with
    | .error e => .error e
    | .ok driver => .ok { r with
        databases := Function.update r.databases dbAlias (some ⟨url, maxSize, driver⟩)
        initializedPools := Function.update r.initializedPools dbAlias (some false) }

/-- `opened` is what creating the pool returns or raises. -/
def ensureInitialized (r : Registry) (dbAlias : String) (opened : Except PyExc Unit) :
    Except PyExc Registry :=
  if r.initializedPools dbAlias = some true then .ok r
  else
    match r.databases dbAlias with
    | none => .error (runtimeError ("Database '" ++ dbAlias ++
        "' not configured. Call Database.configure() first."))
    | some config =>
      if config.driver = .postgres ∧ r.globalPools dbAlias = true then
        .error (runtimeError ("Connection pool for alias '" ++ dbAlias ++ "' already initialized"))
      else
        match opened with
        | .error e => .error e
        | .ok _ => .ok { r with
            globalPools := if config.driver = .postgres then
              Function.update r.globalPools dbAlias true else r.globalPools
            anyPools := if config.driver = .postgres then r.anyPools else
              Function.update r.anyPools dbAlias true
            initializedPools := Function.update r.initializedPools dbAlias (some true) }

def close (r : Registry) (dbAlias : String) : Registry :=
  let anyPools := Function.update r.anyPools dbAlias false
  match r.databases dbAlias with
  | none => { r with anyPools := anyPools }
  | some config => {
      databases := Function.update r.databases dbAlias none
      initializedPools := Function.update r.initializedPools dbAlias none
      anyPools := anyPools
      globalPools := if config.driver = .postgres then
        Function.update r.globalPools dbAlias false else r.globalPools }

end Registry

structure MultiTenant where
  maxTenants : Nat
  dsnTemplate : String
  poolMaxSize : Nat
  tenants : List String
  registry : Registry

def tenantAlias (tenant : String) : String := "_mt_" ++ tenant

/-- The loop that evicts from the front of `_tenants` while there is no room. -/
def evict (maxTenants : Nat) :
    List String → Registry → Except PyExc Unit × List String × Registry
  | [], r =>
    if 0 ≥ maxTenants then
      (.error ⟨["KeyError", "LookupError", "Exception", "BaseException", "object"],
        "dictionary is empty"⟩, [], r)
    else (.ok (), [], r)
  | evicted :: tenants, r =>
    if (evicted :: tenants).length ≥ maxTenants then
      evict maxTenants tenants (r.close (tenantAlias evicted))
    else (.ok (), evicted :: tenants, r)

namespace MultiTenant

def dsn (m : MultiTenant) (tenant : String) : String :=
  m.dsnTemplate.replace "\x7btenant\x7d" tenant

def ensureTenant (m : MultiTenant) (tenant : String) (detected : Except PyExc Driver)
    (opened : Except PyExc Unit) : Except PyExc Unit × MultiTenant :=
  if tenant ∈ m.tenants then (.ok (), { m with tenants := m.tenants.erase tenant ++ [tenant] })
  else
    match evict m.maxTenants m.tenants m.registry with
    | (.error e, tenants, r) => (.error e, { m with tenants := tenants, registry := r })
    | (.ok _, tenants, r) =>
      match r.configure (m.dsn tenant) m.poolMaxSize (tenantAlias tenant) detected with
      | .error e => (.error e, { m with tenants := tenants, registry := r })
      | .ok r =>
        match r.ensureInitialized (tenantAlias tenant) opened with
        | .error e => (.error e, { m with tenants := tenants, registry := r })
        | .ok r => (.ok (), { m with tenants := tenants ++ [tenant], registry := r })

def closeAll (m : MultiTenant) : MultiTenant :=
  { m with
    registry := m.tenants.foldl (fun r tenant => r.close (tenantAlias tenant)) m.registry
    tenants := [] }

end MultiTenant

/-! ## Runs -/

inductive TenantCall
  | ensureTenant (tenant : String) (detected : Except PyExc Driver) (opened : Except PyExc Unit)
  | closeAll

/-- The registries with their past: the number of calls, the call by which each tenant was last
used, and the tenants for which a call has failed. -/
structure Tenancy where
  db : MultiTenant
  calls : Nat
  lastUse : String → Nat
  failed : List String

namespace Tenancy

def start (maxTenants : Nat) (dsnTemplate : String) (poolMaxSize : Nat) : Tenancy :=
  ⟨⟨maxTenants, dsnTemplate, poolMaxSize, [], .empty⟩, 0, fun _ => 0, []⟩

def step (s : Tenancy) : TenantCall → Option Tenancy
  | .ensureTenant tenant detected opened =>
    match s.db.ensureTenant tenant detected opened with
    | (.error _, db) => some { s with db := db, calls := s.calls + 1, failed := tenant :: s.failed }
    | (.ok _, db) => some { s with db := db, calls := s.calls + 1,
                                   lastUse := Function.update s.lastUse tenant s.calls }
  | .closeAll => some { s with db := s.db.closeAll, calls := s.calls + 1 }

/-- The alias of the tenant is configured and its pool is initialized. -/
def Ready (r : Registry) (tenant : String) : Prop :=
  (r.databases (tenantAlias tenant)).isSome = true ∧
    r.initializedPools (tenantAlias tenant) = some true

/-- A call for the tenant would succeed, given a pool. -/
def CanSucceed (m : MultiTenant) (tenant : String) : Prop :=
  ∃ detected opened, (m.ensureTenant tenant detected opened).1 = .ok ()

structure InStep (s : Tenancy) : Prop where
  registries : ∀ tenant, tenant ∈ s.db.tenants ↔ Ready s.db.registry tenant
  nodup : s.db.tenants.Nodup
  size : s.db.tenants.length ≤ max s.db.maxTenants 1
  retry : ∀ tenant ∈ s.failed, CanSucceed s.db tenant

/-- Of the tenants before a call, those that are gone were used before those that are left. -/
def EvictsOldest (s : Tenancy) (call : TenantCall) : Prop :=
  ∀ t, step s call = some t → ∀ gone ∈ s.db.tenants, ∀ left ∈ s.db.tenants,
    gone ∉ t.db.tenants → left ∈ t.db.tenants → s.lastUse gone < s.lastUse left

/-- There is room for a tenant at all, and a pool that is configured can be created. -/
def Opens (s : Tenancy) : TenantCall → Prop
  | .ensureTenant tenant detected opened => s.db.maxTenants ≠ 0 ∧
      (tenant ∉ s.db.tenants → detected.isOk = true → opened = .ok ())
  | .closeAll => True

end Tenancy

/-! ## The registries -/

theorem tenantAlias_inj {t u : String} : tenantAlias t = tenantAlias u ↔ t = u := by
  unfold tenantAlias
  exact ⟨String.append_right_inj _ |>.mp, congrArg _⟩

namespace Registry

open Tenancy

variable {r : Registry} {tenant other : String}

/-- Every pool in `GLOBAL_POOLS` is one of a configured alias. -/
def Pooled (r : Registry) : Prop :=
  ∀ a, r.globalPools a = true → ∃ config, r.databases a = some config ∧ config.driver = .postgres

theorem databases_close (r : Registry) (a b : String) :
    (r.close a).databases b = if b = a then none else r.databases b := by
  unfold close
  cases h : r.databases a with
  | none =>
    split_ifs with hb
    · rw [hb]
      exact h
    · rfl
  | some config => exact Function.update_apply ..

theorem databases_close_tenant (r : Registry) (other tenant : String) :
    (r.close (tenantAlias other)).databases (tenantAlias tenant) =
      if tenant = other then none else r.databases (tenantAlias tenant) := by
  rw [databases_close]
  exact if_congr tenantAlias_inj rfl rfl

theorem initializedPools_close {a b : String} (h : b ≠ a) :
    (r.close a).initializedPools b = r.initializedPools b := by
  unfold close
  cases r.databases a with
  | none => rfl
  | some config => exact Function.update_of_ne h _ _

theorem ready_close : Ready (r.close (tenantAlias other)) tenant ↔ Ready r tenant ∧ tenant ≠ other := by
  unfold Ready
  rw [databases_close_tenant]
  by_cases h : tenant = other
  · rw [if_pos h]
    exact iff_of_false (fun hready => absurd hready.1 Bool.false_ne_true) fun hready => hready.2 h
  · rw [if_neg h, initializedPools_close (tenantAlias_inj.not.mpr h)]
    exact (and_iff_left h).symm

theorem Pooled.close (h : Pooled r) (a : String) : Pooled (r.close a) := by
  intro b hb
  rw [databases_close]
  unfold Registry.close at hb
  cases hconfig : r.databases a with
  | none =>
    rw [hconfig] at hb
    obtain ⟨config, hsome, hdriver⟩ := h b hb
    refine ⟨config, ?_, hdriver⟩
    rw [if_neg, hsome]
    rintro rfl
    rw [hconfig] at hsome
    cases hsome
  | some config =>
    rw [hconfig] at hb
    by_cases hba : b = a
    · exfalso
      subst hba
      dsimp only at hb
      split_ifs at hb with hdriver
      · rw [Function.update_self] at hb
        cases hb
      · obtain ⟨config', hsome, hdriver'⟩ := h b hb
        obtain rfl := Option.some.inj (hconfig.symm.trans hsome)
        exact hdriver hdriver'
    · rw [if_neg hba]
      refine h b ?_
      dsimp only at hb
      split_ifs at hb
      · rwa [Function.update_of_ne hba] at hb
      · exact hb

/-- `Database.close` for each of some tenants. -/
def closeTenants (r : Registry) (tenants : List String) : Registry :=
  tenants.foldl (fun r tenant => r.close (tenantAlias tenant)) r

theorem databases_closeTenants (tenants : List String) (r : Registry) (tenant : String) :
    (r.closeTenants tenants).databases (tenantAlias tenant) =
      if tenant ∈ tenants then none else r.databases (tenantAlias tenant) := by
  induction tenants generalizing r with
  | nil => rfl
  | cons t tenants ih =>
    change ((r.close (tenantAlias t)).closeTenants tenants).databases _ = _
    rw [ih, databases_close_tenant, ← ite_or]
    exact if_congr (or_comm.trans List.mem_cons.symm) rfl rfl

theorem ready_closeTenants (tenants : List String) {r : Registry} :
    Ready (r.closeTenants tenants) tenant ↔ Ready r tenant ∧ tenant ∉ tenants := by
  induction tenants generalizing r with
  | nil => exact ⟨fun h => ⟨h, nofun⟩, And.left⟩
  | cons t tenants ih =>
    change Ready ((r.close (tenantAlias t)).closeTenants tenants) tenant ↔ _
    rw [ih, ready_close, List.mem_cons, not_or, and_assoc]

theorem Pooled.closeTenants (tenants : List String) {r : Registry} (h : Pooled r) :
    Pooled (r.closeTenants tenants) := by
  induction tenants generalizing r with
  | nil => exact h
  | cons t tenants ih => exact ih (h.close _)

/-- The registry after a first `configure` of the tenant. -/
def configured (r : Registry) (tenant : String) (config : DbConfig) : Registry :=
  { r with
    databases := Function.update r.databases (tenantAlias tenant) (some config)
    initializedPools := Function.update r.initializedPools (tenantAlias tenant) (some false) }

theorem databases_configured (r : Registry) (tenant : String) (config : DbConfig) (other : String) :
    (r.configured tenant config).databases (tenantAlias other) =
      if other = tenant then some config else r.databases (tenantAlias other) := by
  unfold configured
  dsimp only
  rw [Function.update_apply]
  exact if_congr tenantAlias_inj rfl rfl

theorem configure_cases (r : Registry) (url : String) (maxSize : Nat) (tenant : String)
    (detected : Except PyExc Driver) :
    ((r.databases (tenantAlias tenant)).isSome = true ∨ detected.isOk = false) ∧
        (∃ e, r.configure url maxSize (tenantAlias tenant) detected = .error e) ∨
      r.databases (tenantAlias tenant) = none ∧ detected.isOk = true ∧
        ∃ config, r.configure url maxSize (tenantAlias tenant) detected =
          .ok (r.configured tenant config) := by
  unfold configure
  cases hconfig : r.databases (tenantAlias tenant) with
  | some config => exact .inl ⟨.inl rfl, _, rfl⟩
  | none =>
    cases detected with
    | error e => exact .inl ⟨.inr rfl, e, rfl⟩
    | ok driver => exact .inr ⟨rfl, rfl, _, rfl⟩

theorem Pooled.configured (h : Pooled r) (hnone : r.databases (tenantAlias tenant) = none)
    (config : DbConfig) : Pooled (r.configured tenant config) := by
  intro a ha
  obtain ⟨config', hsome, hdriver⟩ := h a ha
  refine ⟨config', ?_, hdriver⟩
  refine (Function.update_of_ne ?_ _ _).trans hsome
  rintro rfl
  rw [hnone] at hsome
  cases hsome

theorem ready_configured {config : DbConfig} :
    Ready (r.configured tenant config) other ↔ Ready r other ∧ other ≠ tenant := by
  unfold Ready configured
  by_cases h : other = tenant
  · subst h
    dsimp only
    rw [Function.update_self, Function.update_self]
    exact iff_of_false (fun hready => by cases hready.2) fun hready => hready.2 rfl
  · have hne : tenantAlias other ≠ tenantAlias tenant := tenantAlias_inj.not.mpr h
    dsimp only
    rw [Function.update_of_ne hne, Function.update_of_ne hne]
    exact (and_iff_left h).symm

/-- A tenant that has just been configured is initialized if its pool can be created. -/
theorem ensureInitialized_configured (h : Pooled r)
    (hnone : r.databases (tenantAlias tenant) = none) (config : DbConfig)
    (opened : Except PyExc Unit) :
    (∃ e, opened = .error e ∧
      (r.configured tenant config).ensureInitialized (tenantAlias tenant) opened = .error e) ∨
    opened = .ok () ∧ ∃ r', (r.configured tenant config).ensureInitialized (tenantAlias tenant)
        opened = .ok r' ∧ Pooled r' ∧
      r'.databases = (r.configured tenant config).databases ∧
      r'.initializedPools = Function.update r.initializedPools (tenantAlias tenant) (some true) := by
  have hpool : r.globalPools (tenantAlias tenant) = false := by
    rw [← Bool.not_eq_true]
    intro htrue
    obtain ⟨config', hsome, -⟩ := h _ htrue
    rw [hnone] at hsome
    cases hsome
  have hconfig : (r.configured tenant config).databases (tenantAlias tenant) = some config :=
    (r.databases_configured tenant config tenant).trans (if_pos rfl)
  have hnot : ¬ (r.configured tenant config).initializedPools (tenantAlias tenant) = some true := by
    change ¬ Function.update r.initializedPools (tenantAlias tenant) _ (tenantAlias tenant) = _
    rw [Function.update_self]
    exact nofun
  have hfree : ¬ (config.driver = .postgres ∧
      (r.configured tenant config).globalPools (tenantAlias tenant) = true) := by
    rintro ⟨-, htrue⟩
    rw [configured, hpool] at htrue
    cases htrue
  unfold ensureInitialized
  rw [if_neg hnot, hconfig]
  dsimp only
  rw [if_neg hfree]
  cases opened with
  | error e => exact .inl ⟨e, rfl, rfl⟩
  | ok a =>
    refine .inr ⟨rfl, _, rfl, ?_, rfl, Function.update_idem ..⟩
    intro b hb
    dsimp only at hb
    split_ifs at hb with hdriver
    · by_cases hba : b = tenantAlias tenant
      · subst hba
        exact ⟨config, hconfig, hdriver⟩
      · rw [Function.update_of_ne hba] at hb
        exact h.configured hnone config b hb
    · exact h.configured hnone config b hb

end Registry

/-! ## One call -/

theorem evict_zero (tenants : List String) (r : Registry) :
    ∃ e, evict 0 tenants r = (.error e, [], r.closeTenants tenants) := by
  induction tenants generalizing r with
  | nil => exact ⟨_, rfl⟩
  | cons t tenants ih => exact ih (r.close (tenantAlias t))

/-- With room for a tenant, eviction takes from the front what is too much. -/
theorem evict_eq {maxTenants : Nat} (h : maxTenants ≠ 0) (tenants : List String) (r : Registry) :
    evict maxTenants tenants r = (.ok (), tenants.drop (tenants.length + 1 - maxTenants),
      r.closeTenants (tenants.take (tenants.length + 1 - maxTenants))) := by
  induction tenants generalizing r with
  | nil =>
    unfold evict
    rw [if_neg (Nat.not_le.mpr (Nat.pos_of_ne_zero h)), List.drop_nil, List.take_nil]
    rfl
  | cons t tenants ih =>
    unfold evict
    split_ifs with hfull
    · have hcount : (t :: tenants).length + 1 - maxTenants = tenants.length + 1 - maxTenants + 1 := by
        rw [List.length_cons] at hfull ⊢
        omega
      rw [ih, hcount]
      rfl
    · have hcount : (t :: tenants).length + 1 - maxTenants = 0 := by omega
      rw [hcount]
      rfl

namespace MultiTenant

variable (m : MultiTenant)

def excess : Nat := m.tenants.length + 1 - m.maxTenants

/-- The registry when the tenants in excess are closed. -/
def evicted : Registry := m.registry.closeTenants (m.tenants.take m.excess)

/-- What a call can do to the two registries. -/
inductive Ensured (m : MultiTenant) (tenant : String) (detected : Except PyExc Driver)
    (opened : Except PyExc Unit) : Except PyExc Unit → MultiTenant → Prop
  | hit (h : tenant ∈ m.tenants) : Ensured m tenant detected opened (.ok ())
      { m with tenants := m.tenants.erase tenant ++ [tenant] }
  | noRoom (h : tenant ∉ m.tenants) (hmax : m.maxTenants = 0) (e : PyExc) :
      Ensured m tenant detected opened (.error e)
        { m with tenants := [], registry := m.registry.closeTenants m.tenants }
  | rejected (h : tenant ∉ m.tenants) (hmax : m.maxTenants ≠ 0) (e : PyExc)
      (hwhy : (m.registry.databases (tenantAlias tenant)).isSome = true ∨
        detected.isOk = false) :
      Ensured m tenant detected opened (.error e)
        { m with tenants := m.tenants.drop m.excess, registry := m.evicted }
  | unopened (h : tenant ∉ m.tenants) (hmax : m.maxTenants ≠ 0) (e : PyExc) (config : DbConfig)
      (hnone : m.registry.databases (tenantAlias tenant) = none) (hdetected : detected.isOk = true)
      (hopened : opened ≠ .ok ()) : Ensured m tenant detected opened (.error e)
        { m with tenants := m.tenants.drop m.excess
                 registry := m.evicted.configured tenant config }
  | opened (h : tenant ∉ m.tenants) (hmax : m.maxTenants ≠ 0) (config : DbConfig) (r : Registry)
      (hnone : m.registry.databases (tenantAlias tenant) = none) (hopened : opened = .ok ())
      (hpooled : r.Pooled) (hdatabases : r.databases = (m.evicted.configured tenant config).databases)
      (hinit : r.initializedPools =
        Function.update m.evicted.initializedPools (tenantAlias tenant) (some true)) :
      Ensured m tenant detected opened (.ok ())
        { m with tenants := m.tenants.drop m.excess ++ [tenant], registry := r }

variable {m}

/-- Closing other tenants leaves the entry of a tenant alone. -/
theorem databases_evicted {tenant : String} (h : tenant ∉ m.tenants) :
    m.evicted.databases (tenantAlias tenant) = m.registry.databases (tenantAlias tenant) := by
  unfold evicted
  rw [Registry.databases_closeTenants, if_neg fun hmem => h (List.mem_of_mem_take hmem)]

theorem ensureTenant_cases (hm : m.registry.Pooled) (tenant : String)
    (detected : Except PyExc Driver) (opened : Except PyExc Unit) : Ensured m tenant detected opened
      (m.ensureTenant tenant detected opened).1 (m.ensureTenant tenant detected opened).2 := by
  unfold ensureTenant
  split_ifs with hmem
  · exact .hit hmem
  · by_cases hmax : m.maxTenants = 0
    · obtain ⟨e, he⟩ := evict_zero m.tenants m.registry
      rw [hmax, he]
      exact hmax ▸ .noRoom hmem hmax e
    · have hevict : evict m.maxTenants m.tenants m.registry =
          (.ok (), m.tenants.drop m.excess, m.evicted) := evict_eq hmax m.tenants m.registry
      have hpooled : m.evicted.Pooled := hm.closeTenants _
      rw [hevict]
      dsimp only
      rcases m.evicted.configure_cases (m.dsn tenant) m.poolMaxSize tenant detected with
        ⟨hwhy, e, he⟩ | ⟨hnone, hdetected, config, hconfig⟩
      · rw [databases_evicted hmem] at hwhy
        rw [he]
        exact .rejected hmem hmax e hwhy
      · rw [hconfig]
        dsimp only
        rcases Registry.ensureInitialized_configured hpooled hnone config opened with
          ⟨e, rfl, he⟩ | ⟨rfl, r, hr, hpooled', hdatabases, hinit⟩
        · rw [databases_evicted hmem] at hnone
          rw [he]
          exact .unopened hmem hmax e config hnone hdetected nofun
        · rw [databases_evicted hmem] at hnone
          rw [hr]
          exact .opened hmem hmax config r hnone rfl hpooled' hdatabases hinit

end MultiTenant

/-! ## What every call keeps -/

theorem mem_drop_iff {α : Type} {l : List α} (h : l.Nodup) (n : Nat) (a : α) :
    a ∈ l.drop n ↔ a ∈ l ∧ a ∉ l.take n := by
  have hsplit := List.take_append_drop n l
  constructor
  · intro ha
    refine ⟨List.mem_of_mem_drop ha, fun htake => ?_⟩
    rw [← hsplit, List.nodup_append] at h
    exact h.2.2 a htake a ha rfl
  · rintro ⟨ha, hnot⟩
    rw [← hsplit, List.mem_append] at ha
    exact ha.resolve_left hnot

namespace Tenancy

open MultiTenant Registry

structure Inv (s : Tenancy) : Prop where
  pooled : s.db.registry.Pooled
  registries : ∀ tenant, tenant ∈ s.db.tenants ↔ Ready s.db.registry tenant
  recency : ByRecency s.lastUse s.db.tenants
  used : ∀ tenant ∈ s.db.tenants, s.lastUse tenant < s.calls
  size : s.db.tenants.length ≤ s.db.maxTenants
  stale : ∀ tenant, (s.db.registry.databases (tenantAlias tenant)).isSome = true →
    tenant ∉ s.db.tenants → tenant ∈ s.failed

variable {s s' : Tenancy} {tenant : String} {detected : Except PyExc Driver}
  {opened : Except PyExc Unit}

theorem inv_start (maxTenants : Nat) (dsnTemplate : String) (poolMaxSize : Nat) :
    Inv (start maxTenants dsnTemplate poolMaxSize) := by
  refine ⟨nofun, fun tenant => iff_of_false nofun ?_, List.Pairwise.nil, nofun, Nat.zero_le _, nofun⟩
  rintro ⟨h, -⟩
  cases h

/-- Tenants are closed from the front of the list. -/
theorem Inv.drop (h : Inv s) (n : Nat) :
    Inv { s with db := { s.db with tenants := s.db.tenants.drop n
                                   registry := s.db.registry.closeTenants (s.db.tenants.take n) } } := by
  have hmem := mem_drop_iff h.recency.nodup n
  refine ⟨h.pooled.closeTenants _, fun u => ?_, h.recency.drop n,
    fun u hu => h.used u (List.mem_of_mem_drop hu), ?_, fun u hsome hnot => ?_⟩
  · rw [hmem, ready_closeTenants, h.registries]
  · rw [List.length_drop]
    exact Nat.le_trans (Nat.sub_le _ _) h.size
  · dsimp only at hsome hnot
    rw [databases_closeTenants] at hsome
    split_ifs at hsome with htake
    · cases hsome
    · exact h.stale u hsome fun hu => hnot ((hmem u).mpr ⟨hu, htake⟩)

theorem Inv.closed (h : Inv s) :
    Inv { s with db := { s.db with tenants := []
                                   registry := s.db.registry.closeTenants s.db.tenants } } := by
  have hdrop := h.drop s.db.tenants.length
  rwa [List.drop_length, List.take_length] at hdrop

/-- A call that changes nothing but the past. -/
theorem Inv.fail (h : Inv s) (tenant : String) :
    Inv { s with calls := s.calls + 1, failed := tenant :: s.failed } :=
  ⟨h.pooled, h.registries, h.recency, fun u hu => Nat.lt_succ_of_lt (h.used u hu), h.size,
    fun u hsome hnot => List.mem_cons_of_mem _ (h.stale u hsome hnot)⟩

theorem Inv.pass (h : Inv s) : Inv { s with calls := s.calls + 1 } :=
  ⟨h.pooled, h.registries, h.recency, fun u hu => Nat.lt_succ_of_lt (h.used u hu), h.size, h.stale⟩

/-- A tenant that is only configured is remembered as failed. -/
theorem Inv.configured (h : Inv s) (hnew : tenant ∉ s.db.tenants)
    (hnone : s.db.registry.databases (tenantAlias tenant) = none) (config : DbConfig)
    (hfailed : tenant ∈ s.failed) :
    Inv { s with db := { s.db with registry := s.db.registry.configured tenant config } } := by
  refine ⟨h.pooled.configured hnone config, fun u => ?_, h.recency, h.used, h.size,
    fun u hsome hnot => ?_⟩
  · rw [ready_configured, ← h.registries]
    refine ⟨fun hu => ⟨hu, ?_⟩, And.left⟩
    rintro rfl
    exact hnew hu
  · by_cases hu : u = tenant
    · rw [hu]
      exact hfailed
    · refine h.stale u ?_ hnot
      dsimp only at hsome
      rwa [databases_configured, if_neg hu] at hsome

theorem Inv.first_use (h : Inv s) (hnew : tenant ∉ s.db.tenants) {r : Registry} {config : DbConfig}
    (hroom : s.db.tenants.length + 1 ≤ s.db.maxTenants) (hpooled : r.Pooled)
    (hdatabases : r.databases = (s.db.registry.configured tenant config).databases)
    (hinit : r.initializedPools =
      Function.update s.db.registry.initializedPools (tenantAlias tenant) (some true)) :
    Inv { s with db := { s.db with tenants := s.db.tenants ++ [tenant], registry := r }
                 calls := s.calls + 1
                 lastUse := Function.update s.lastUse tenant s.calls } := by
  have hview : ∀ u, u ≠ tenant → r.databases (tenantAlias u) =
      s.db.registry.databases (tenantAlias u) := by
    intro u hu
    rw [hdatabases, databases_configured, if_neg hu]
  have hready : ∀ u, Ready r u ↔ Ready s.db.registry u ∨ u = tenant := by
    intro u
    unfold Ready
    by_cases hu : u = tenant
    · subst hu
      rw [hinit, Function.update_self, hdatabases, databases_configured, if_pos rfl]
      exact iff_of_true ⟨rfl, rfl⟩ (.inr rfl)
    · rw [hview u hu, hinit, Function.update_of_ne (tenantAlias_inj.not.mpr hu)]
      exact (or_iff_left hu).symm
  refine ⟨hpooled, fun u => ?_, h.recency.add hnew h.used, fun u hu => ?_, ?_,
    fun u hsome hnot => ?_⟩
  · rw [hready, ← h.registries, List.mem_append, List.mem_singleton]
  · dsimp only
    by_cases heq : u = tenant
    · rw [heq, Function.update_self]
      exact Nat.lt_succ_self _
    · rw [Function.update_of_ne heq]
      rw [List.mem_append, List.mem_singleton] at hu
      exact Nat.lt_succ_of_lt (h.used u (hu.resolve_right heq))
  · rw [List.length_append]
    exact hroom
  · rw [List.mem_append, List.mem_singleton, not_or] at hnot
    rw [hview u hnot.2] at hsome
    exact h.stale u hsome hnot.1

theorem Inv.used_again (h : Inv s) (hmem : tenant ∈ s.db.tenants) :
    Inv { s with db := { s.db with tenants := s.db.tenants.erase tenant ++ [tenant] }
                 calls := s.calls + 1
                 lastUse := Function.update s.lastUse tenant s.calls } := by
  have hperm : ∀ u, u ∈ s.db.tenants.erase tenant ++ [tenant] ↔ u ∈ s.db.tenants := by
    intro u
    rw [List.mem_append, List.mem_singleton, h.recency.nodup.mem_erase_iff]
    by_cases hu : u = tenant
    · rw [hu]
      exact iff_of_true (.inr rfl) hmem
    · exact ⟨fun hor => (hor.resolve_right hu).2, fun hin => .inl ⟨hu, hin⟩⟩
  refine ⟨h.pooled, fun u => (hperm u).trans (h.registries u), h.recency.use h.used,
    fun u hu => ?_, ?_, fun u hsome hnot => h.stale u hsome fun hu => hnot ((hperm u).mpr hu)⟩
  · dsimp only
    by_cases heq : u = tenant
    · rw [heq, Function.update_self]
      exact Nat.lt_succ_self _
    · rw [Function.update_of_ne heq]
      exact Nat.lt_succ_of_lt (h.used u ((hperm u).mp hu))
  · rw [List.length_append, List.length_erase_of_mem hmem, List.length_singleton,
      Nat.sub_add_cancel (List.length_pos_of_mem hmem)]
    exact h.size

/-! ## Steps -/

theorem step_ensureTenant (h : Inv s) (hstep : step s (.ensureTenant tenant detected opened) = some s') :
    ∃ result db, Ensured s.db tenant detected opened result db ∧
      s' = match result with
        | .error _ => { s with db := db, calls := s.calls + 1, failed := tenant :: s.failed }
        | .ok _ => { s with db := db, calls := s.calls + 1,
                            lastUse := Function.update s.lastUse tenant s.calls } := by
  have hcases := ensureTenant_cases h.pooled tenant detected opened
  unfold step at hstep
  dsimp only at hstep
  rcases hr : s.db.ensureTenant tenant detected opened with ⟨e | _, db⟩
  · rw [hr] at hstep hcases
    cases hstep
    exact ⟨_, db, hcases, rfl⟩
  · rw [hr] at hstep hcases
    cases hstep
    exact ⟨_, db, hcases, rfl⟩

theorem excess_room (hmax : s.db.maxTenants ≠ 0) :
    (s.db.tenants.drop s.db.excess).length + 1 ≤ s.db.maxTenants := by
  rw [List.length_drop, MultiTenant.excess]
  omega

theorem inv_step {call : TenantCall} (h : Inv s) (hstep : step s call = some s') : Inv s' := by
  cases call with
  | closeAll =>
    cases hstep
    exact h.closed.pass
  | ensureTenant tenant detected opened =>
    obtain ⟨result, db, hens, rfl⟩ := step_ensureTenant h hstep
    cases hens with
    | hit hmem => exact h.used_again hmem
    | noRoom hnot hmax e => exact h.closed.fail tenant
    | rejected hnot hmax e hwhy => exact (h.drop s.db.excess).fail tenant
    | unopened hnot hmax e config hnone hdetected hopened =>
      refine ((h.drop s.db.excess).fail tenant).configured
        (fun hmem => hnot (List.mem_of_mem_drop hmem)) ?_ config List.mem_cons_self
      exact (databases_evicted hnot).trans hnone
    | opened hnot hmax config r hnone hopened hpooled hdatabases hinit =>
      exact (h.drop s.db.excess).first_use (fun hmem => hnot (List.mem_of_mem_drop hmem))
        (excess_room hmax) hpooled hdatabases hinit

theorem canSucceed_iff {m : MultiTenant} (hm : m.registry.Pooled) :
    CanSucceed m tenant ↔ tenant ∈ m.tenants ∨
      m.maxTenants ≠ 0 ∧ m.registry.databases (tenantAlias tenant) = none := by
  constructor
  · rintro ⟨detected, opened, hok⟩
    have hcases := ensureTenant_cases hm tenant detected opened
    rw [hok] at hcases
    generalize (m.ensureTenant tenant detected opened).2 = db at hcases
    cases hcases with
    | hit hmem => exact .inl hmem
    | opened hnot hmax config r hnone => exact .inr ⟨hmax, hnone⟩
  · intro h
    refine ⟨.ok .postgres, .ok (), ?_⟩
    have hcases := ensureTenant_cases hm tenant (.ok .postgres) (.ok ())
    generalize (m.ensureTenant tenant (.ok .postgres) (.ok ())).1 = result at hcases ⊢
    generalize (m.ensureTenant tenant (.ok .postgres) (.ok ())).2 = db at hcases
    cases hcases with
    | hit hmem => rfl
    | noRoom hnot hmax e => exact absurd hmax (h.resolve_left hnot).1
    | rejected hnot hmax e hwhy =>
      rw [(h.resolve_left hnot).2] at hwhy
      rcases hwhy with hsome | hbad
      · cases hsome
      · cases hbad
    | unopened hnot hmax e config hnone hdetected hopened => exact absurd rfl hopened
    | opened hnot hmax config r hnone => rfl

/-- Every tenant for which a call failed is kept, or can be configured. -/
def Retryable (s : Tenancy) : Prop := ∀ tenant ∈ s.failed, CanSucceed s.db tenant

theorem Inv.retryable_iff (h : Inv s) : Retryable s ↔ ∀ tenant ∈ s.failed,
    tenant ∈ s.db.tenants ∨ s.db.maxTenants ≠ 0 ∧
      s.db.registry.databases (tenantAlias tenant) = none :=
  forall₂_congr fun _ _ => canSucceed_iff h.pooled

/-- Eviction makes no tenant unconfigurable. -/
theorem retry_drop (h : Inv s) (hs : Retryable s) (n : Nat) (u : String) (hu : u ∈ s.failed) :
    u ∈ s.db.tenants.drop n ∨ s.db.maxTenants ≠ 0 ∧
      (s.db.registry.closeTenants (s.db.tenants.take n)).databases (tenantAlias u) = none := by
  rw [databases_closeTenants, mem_drop_iff h.recency.nodup]
  by_cases htake : u ∈ s.db.tenants.take n
  · have hpos := List.length_pos_of_mem (List.mem_of_mem_take htake)
    have hsize := h.size
    rw [if_pos htake]
    exact .inr ⟨by omega, rfl⟩
  · rw [if_neg htake]
    exact (h.retryable_iff.mp hs u hu).imp_left fun hmem => ⟨hmem, htake⟩

theorem retryable_step_iff {call : TenantCall} (h : Inv s) (hs : Retryable s)
    (hstep : step s call = some s') : Retryable s' ↔ Opens s call := by
  rw [(inv_step h hstep).retryable_iff]
  cases call with
  | closeAll =>
    cases hstep
    refine iff_of_true (fun u hu => ?_) trivial
    have hretry := retry_drop h hs s.db.tenants.length u hu
    rw [List.drop_length, List.take_length] at hretry
    exact hretry
  | ensureTenant tenant detected opened =>
    obtain ⟨result, db, hens, rfl⟩ := step_ensureTenant h hstep
    cases hens with
    | hit hmem =>
      have hpos := List.length_pos_of_mem hmem
      have hsize := h.size
      refine iff_of_true (fun u hu => ?_) ⟨by omega, fun hnot => absurd hmem hnot⟩
      refine (h.retryable_iff.mp hs u hu).imp_left fun hmem' => ?_
      rw [List.mem_append, List.mem_singleton, h.recency.nodup.mem_erase_iff]
      by_cases heq : u = tenant
      · exact .inr heq
      · exact .inl ⟨heq, hmem'⟩
    | noRoom hnot hmax e =>
      refine iff_of_false (fun hall => ?_) fun hopens => hopens.1 hmax
      rcases hall tenant List.mem_cons_self with hmem | ⟨hne, -⟩
      · cases hmem
      · exact hne hmax
    | rejected hnot hmax e hwhy =>
      -- an alias that is configured without being listed would be one of a failed call
      have hnone : s.db.registry.databases (tenantAlias tenant) = none := by
        by_contra hne
        have hfailed := h.stale tenant (Option.isSome_iff_ne_none.mpr hne) hnot
        rcases h.retryable_iff.mp hs tenant hfailed with hmem | ⟨-, hnone⟩
        · exact hnot hmem
        · exact hne hnone
      have hbad : detected.isOk = false := by
        rw [hnone] at hwhy
        exact hwhy.resolve_left nofun
      refine iff_of_true (fun u hu => ?_) ⟨hmax, fun _ hok => ?_⟩
      · rcases List.mem_cons.mp hu with rfl | hu
        · exact .inr ⟨hmax, (databases_evicted hnot).trans hnone⟩
        · exact retry_drop h hs s.db.excess u hu
      · rw [hbad] at hok
        cases hok
    | unopened hnot hmax e config hnone hdetected hopened =>
      refine iff_of_false (fun hall => ?_) fun hopens => hopened (hopens.2 hnot hdetected)
      rcases hall tenant List.mem_cons_self with hmem | ⟨-, hfree⟩
      · exact hnot (List.mem_of_mem_drop hmem)
      · dsimp only at hfree
        rw [databases_configured, if_pos rfl] at hfree
        cases hfree
    | opened hnot hmax config r hnone hopened hpooled hdatabases hinit =>
      refine iff_of_true (fun u hu => ?_) ⟨hmax, fun _ _ => hopened⟩
      dsimp only
      rw [List.mem_append, List.mem_singleton]
      by_cases heq : u = tenant
      · exact .inl (.inr heq)
      · rw [hdatabases, databases_configured, if_neg heq]
        exact (retry_drop h hs s.db.excess u hu).imp_left .inl

theorem evictsOldest (h : Inv s) (call : TenantCall) : EvictsOldest s call := by
  intro s' hstep gone hgone left hleft hnot hmem
  have hdrop : ∀ n, gone ∉ s.db.tenants.drop n → left ∈ s.db.tenants.drop n →
      s.lastUse gone < s.lastUse left := by
    intro n hnot hmem
    rw [mem_drop_iff h.recency.nodup, not_and_not_right] at hnot
    exact h.recency.oldest (hnot hgone) hmem
  cases call with
  | closeAll =>
    cases hstep
    cases hmem
  | ensureTenant tenant detected opened =>
    obtain ⟨result, db, hens, rfl⟩ := step_ensureTenant h hstep
    cases hens with
    | hit htenant =>
      dsimp only at hnot
      rw [List.mem_append, List.mem_singleton, not_or, h.recency.nodup.mem_erase_iff] at hnot
      exact absurd ⟨hnot.2, hgone⟩ hnot.1
    | noRoom hnew hmax e => cases hmem
    | rejected hnew hmax e hwhy => exact hdrop _ hnot hmem
    | unopened hnew hmax e config hnone hdetected hopened => exact hdrop _ hnot hmem
    | opened hnew hmax config r hnone hopened hpooled hdatabases hinit =>
      dsimp only at hnot hmem
      rw [List.mem_append, List.mem_singleton, not_or] at hnot
      rw [List.mem_append, List.mem_singleton] at hmem
      refine hdrop _ hnot.1 (hmem.resolve_right ?_)
      rintro rfl
      exact hnew hleft

/-! ## Runs -/

/-- Everything but the retries holds whatever fails. -/
theorem Inv.inStep_iff (h : Inv s) : InStep s ↔ Retryable s := by
  refine ⟨InStep.retry, fun hretry => ⟨h.registries, h.recency.nodup, ?_, hretry⟩⟩
  exact Nat.le_trans h.size (Nat.le_max_left _ _)

theorem step_isSome (s : Tenancy) (call : TenantCall) : ∃ s', step s call = some s' := by
  cases call with
  | closeAll => exact ⟨_, rfl⟩
  | ensureTenant tenant detected opened =>
    unfold step
    dsimp only
    rcases s.db.ensureTenant tenant detected opened with ⟨e | _, db⟩
    · exact ⟨_, rfl⟩
    · exact ⟨_, rfl⟩

theorem inStep_iff_opens (maxTenants : Nat) (dsnTemplate : String) (poolMaxSize : Nat)
    (calls : List TenantCall) :
    (Always step InStep (start maxTenants dsnTemplate poolMaxSize) calls ∧
      Along step EvictsOldest (start maxTenants dsnTemplate poolMaxSize) calls) ↔
    Along step Opens (start maxTenants dsnTemplate poolMaxSize) calls := by
  have hstart := inv_start maxTenants dsnTemplate poolMaxSize
  have hall : Along step (fun _ _ => True) (start maxTenants dsnTemplate poolMaxSize) calls :=
    .of_forall (fun _ _ _ => trivial) _
  have holdest : Along step EvictsOldest (start maxTenants dsnTemplate poolMaxSize) calls :=
    hall.strengthen (fun _ _ _ h _ hstep => inv_step h hstep) (fun _ call h _ => evictsOldest h call)
      hstart
  have halways : Always step InStep (start maxTenants dsnTemplate poolMaxSize) calls ↔
      Along step (fun s call => ∀ s', step s call = some s' → Opens s call)
        (start maxTenants dsnTemplate poolMaxSize) calls := by
    refine always_iff_along Inv (hstart.inStep_iff.mpr nofun) hstart
      (fun _ _ _ h hstep => inv_step h hstep) fun s call s' h hs hstep => ?_
    rw [(inv_step h hstep).inStep_iff]
    exact retryable_step_iff h (h.inStep_iff.mp hs) hstep
  rw [and_iff_left holdest, halways]
  constructor
  · intro h
    refine h.mono fun s call hopens => ?_
    obtain ⟨s', hs'⟩ := step_isSome s call
    exact hopens s' hs'
  · exact fun h => h.mono fun _ _ hopens _ _ => hopens

/-- The first connection to a tenant's database fails. -/
def firstFails : List TenantCall :=
  [.ensureTenant "acme" (.ok .postgres) (.error (runtimeError "Failed to create pool: timeout"))]

theorem firstFails_rejects_retry :
    ¬ (Always step InStep (start 100 "postgresql://u:p@h/\x7btenant\x7d" 8) firstFails ∧
      Along step EvictsOldest (start 100 "postgresql://u:p@h/\x7btenant\x7d" 8) firstFails) := by
  rintro ⟨h, -⟩
  obtain ⟨s, hs⟩ : ∃ s, step (start 100 "postgresql://u:p@h/\x7btenant\x7d" 8)
      (firstFails.head nofun) = some s := ⟨_, rfl⟩
  have hinv : Inv s := inv_step (inv_start _ _ _) hs
  have hafter : InStep s := h.2 s hs
  cases hs
  rcases (canSucceed_iff hinv.pooled).mp (hafter.retry "acme" (by decide)) with hmem | ⟨-, hnone⟩
  · cases hmem
  · cases hnone

end Tenancy

end Hypern.Database
