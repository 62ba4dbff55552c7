import Hypern.Lib.History
import Hypern.Realtime.Channel

/-! Topics: the grammar of patterns, and the clients that a matcher finds for a topic after any
calls. -/

namespace Hypern.Realtime

open Lib

abbrev Segments := List (List Char)

def segments (s : String) : Segments := s.toList.splitOn ':'

/-- `#` stands for all the segments that are left, of which there is at least one; whatever
follows it in the pattern is ignored. -/
inductive Grammar : Segments → Segments → Prop
  | nil : Grammar [] []
  | hash (pattern : Segments) (segment : List Char) (topic : Segments) :
    Grammar (['#'] :: pattern) (segment :: topic)
  | star {pattern topic : Segments} (segment : List Char) (h : Grammar pattern topic) :
    Grammar (['*'] :: pattern) (segment :: topic)
  | literal {pattern topic : Segments} {segment : List Char} (hash : segment ≠ ['#'])
    (star : segment ≠ ['*']) (h : Grammar pattern topic) :
    Grammar (segment :: pattern) (segment :: topic)

namespace TopicMatcher

/-- The loop of `pattern_matches` from the indices on. -/
def matchLoop (patternParts topicParts : Segments) (pi ti : Nat) : Bool :=
  if h : pi < patternParts.length ∧ ti < topicParts.length then
    let part := patternParts.get ⟨pi, h.1⟩
    if part = ['#'] then true
    else if part = ['*'] then matchLoop patternParts topicParts (pi + 1) (ti + 1)
    else if part ≠ topicParts.get ⟨ti, h.2⟩ then false
    else matchLoop patternParts topicParts (pi + 1) (ti + 1)
  else decide (pi = patternParts.length) && decide (ti = topicParts.length)
termination_by patternParts.length - pi

def patternMatchesByIndex (pattern topic : String) : Bool :=
  if pattern = topic then true else matchLoop (segments pattern) (segments topic) 0 0

/-- The loop of `unsubscribe_all` at one pattern: the count, the patterns that are left without
clients, the matcher. -/
def leave (client : String) (acc : Nat × List String × TopicMatcher) (pattern : String) :
    Nat × List String × TopicMatcher :=
  match acc.2.2.patterns.lookup pattern with
  | none => acc
  | some clients =>
    let entry := clients.erase client
    (if client ∈ clients then acc.1 + 1 else acc.1,
      if entry = ∅ then acc.2.1 ++ [pattern] else acc.2.1,
      ⟨acc.2.2.patterns.insert pattern entry⟩)

/-- `order` are the patterns in their order of iteration. -/
def unsubscribeAll (m : TopicMatcher) (client : String) (order : List String) :
    Nat × TopicMatcher :=
  let r := order.foldl (leave client) (0, [], m)
  (r.1, ⟨r.2.1.foldl (fun patterns pattern => patterns.erase pattern) r.2.2.patterns⟩)

/-- The set that the loop of `match_topic` fills. -/
def matched (m : TopicMatcher) (topic : String) (order : List String) : Finset String :=
  order.foldl (fun matched pattern =>
    if patternMatchesByIndex pattern topic then matched ∪ m.clients pattern else matched) ∅

/-- `match_topic` lists the set in an order of its own. -/
def MatchTopic (m : TopicMatcher) (topic : String) (order result : List String) : Prop :=
  (result : Multiset String) = (m.matched topic order).val

end TopicMatcher

/-! ## Runs -/

inductive TopicCall
  | subscribe (pattern client : String)
  | unsubscribe (pattern client : String)
  | unsubscribeAll (client : String) (order : List String)

namespace TopicMatcher

def step (m : TopicMatcher) : TopicCall → Option TopicMatcher
  | .subscribe pattern client => some (m.subscribe pattern client)
  | .unsubscribe pattern client => some (m.unsubscribe pattern client).2
  | .unsubscribeAll client order =>
    if order.Perm m.patterns.keys then some (m.unsubscribeAll client order).2 else none

/-- Whether the call subscribes the client to the pattern or ends this, if it does either. -/
def verdict (pattern client : String) : TopicCall → Option Bool
  | .subscribe p c => if p = pattern ∧ c = client then some true else none
  | .unsubscribe p c => if p = pattern ∧ c = client then some false else none
  | .unsubscribeAll c _ => if c = client then some false else none

/-- The last call about the client and the pattern is a subscription. -/
def Subscribed (calls : List TopicCall) (pattern client : String) : Prop :=
  lastVerdict (verdict pattern client) false calls = true

/-! ## The grammar -/

/-- The loop is the recursion over what is left of the two lists. -/
theorem matchLoop_eq (pattern topic : Segments) (pi ti : Nat) (hpi : pi ≤ pattern.length)
    (hti : ti ≤ topic.length) :
    matchLoop pattern topic pi ti = segmentsMatch (pattern.drop pi) (topic.drop ti) := by
  fun_induction matchLoop pattern topic pi ti with
  | case1 pi ti h part hhash =>
    rw [List.drop_eq_getElem_cons h.1, List.drop_eq_getElem_cons h.2, segmentsMatch]
    exact (if_pos hhash).symm
  | case2 pi ti h part hhash hstar ih =>
    rw [List.drop_eq_getElem_cons h.1, List.drop_eq_getElem_cons h.2, segmentsMatch, ih h.1 h.2]
    exact ((if_neg hhash).trans (if_pos hstar)).symm
  | case3 pi ti h part hhash hstar hne =>
    rw [List.drop_eq_getElem_cons h.1, List.drop_eq_getElem_cons h.2, segmentsMatch]
    exact ((if_neg hhash).trans ((if_neg hstar).trans (if_pos hne))).symm
  | case4 pi ti h part hhash hstar heq ih =>
    rw [List.drop_eq_getElem_cons h.1, List.drop_eq_getElem_cons h.2, segmentsMatch, ih h.1 h.2]
    exact ((if_neg hhash).trans ((if_neg hstar).trans (if_neg heq))).symm
  | case5 pi ti h =>
    -- one of the two lists is used up
    rcases Nat.lt_or_ge pi pattern.length with hp | hp
    · have ht : topic.length ≤ ti := Nat.not_lt.mp fun ht => h ⟨hp, ht⟩
      rw [List.drop_eq_nil_of_le ht, List.drop_eq_getElem_cons hp, decide_eq_false (Nat.ne_of_lt hp)]
      rfl
    · rw [List.drop_eq_nil_of_le hp, decide_eq_true (Nat.le_antisymm hpi hp), Bool.true_and]
      rcases Nat.lt_or_ge ti topic.length with ht | ht
      · rw [List.drop_eq_getElem_cons ht, decide_eq_false (Nat.ne_of_lt ht)]
        rfl
      · rw [List.drop_eq_nil_of_le ht, decide_eq_true (Nat.le_antisymm hti ht)]
        rfl

theorem segmentsMatch_iff (pattern topic : Segments) :
    segmentsMatch pattern topic = true ↔ Grammar pattern topic := by
  constructor
  · intro h
    fun_induction segmentsMatch pattern topic with
    | case1 pattern segment topic => exact .hash pattern segment topic
    | case2 pattern segment topic hne ih => exact .star segment (ih h)
    | case3 => cases h
    | case4 part pattern segment topic hhash hstar heq ih =>
      rw [← not_not.mp heq]
      exact .literal hhash hstar (ih h)
    | case5 => exact .nil
    | case6 => cases h
  · intro h
    induction h with
    | nil => rfl
    | hash pattern segment topic => rfl
    | star segment _ ih => exact ih
    | literal hhash hstar _ ih =>
      unfold segmentsMatch
      rw [if_neg hhash, if_neg hstar, if_neg (not_not_intro rfl)]
      exact ih

theorem patternMatchesByIndex_eq (pattern topic : String) :
    patternMatchesByIndex pattern topic = patternMatches pattern topic := by
  unfold patternMatchesByIndex patternMatches
  rw [matchLoop_eq _ _ 0 0 (Nat.zero_le _) (Nat.zero_le _)]
  by_cases h : pattern = topic
  · simp [h]
  · simp [h, segments]

theorem patternMatchesByIndex_iff (pattern topic : String) :
    patternMatchesByIndex pattern topic = true ↔
      pattern = topic ∨ Grammar (segments pattern) (segments topic) := by
  rw [patternMatchesByIndex_eq, patternMatches, Bool.or_eq_true, beq_iff_eq, segmentsMatch_iff]
  rfl

/-! ## The clients of a pattern -/

variable {m t : TopicMatcher}

/-- No pattern is kept without clients. -/
def NoEmpty (m : TopicMatcher) : Prop :=
  ∀ pattern clients, m.patterns.lookup pattern = some clients → clients ≠ ∅

theorem NoEmpty.subscribe (h : m.NoEmpty) (pattern client : String) :
    (m.subscribe pattern client).NoEmpty := by
  intro other clients hclients
  rw [TopicMatcher.subscribe, Table.lookup_insert_eq] at hclients
  split_ifs at hclients
  · rw [← Option.some.inj hclients]
    exact Finset.insert_ne_empty _ _
  · exact h other clients hclients

theorem NoEmpty.unsubscribe (h : m.NoEmpty) (pattern client : String) :
    (m.unsubscribe pattern client).2.NoEmpty := by
  unfold TopicMatcher.unsubscribe
  cases hpattern : m.patterns.lookup pattern with
  | none => exact h
  | some kept =>
    intro other clients hclients
    dsimp only at hclients
    split_ifs at hclients with hempty
    · rw [Table.lookup_erase_eq] at hclients
      split_ifs at hclients
      exact h other clients hclients
    · rw [Table.lookup_insert_eq] at hclients
      split_ifs at hclients
      · exact Option.some.inj hclients ▸ hempty
      · exact h other clients hclients

theorem lookup_leave (client : String) (acc : Nat × List String × TopicMatcher)
    (first pattern : String) : (leave client acc first).2.2.patterns.lookup pattern =
      if pattern = first then (acc.2.2.patterns.lookup pattern).map (·.erase client)
      else acc.2.2.patterns.lookup pattern := by
  unfold leave
  by_cases h : pattern = first
  · subst h
    rw [if_pos rfl]
    cases hlookup : acc.2.2.patterns.lookup pattern with
    | none => exact hlookup
    | some clients => exact AList.lookup_insert _
  · rw [if_neg h]
    cases acc.2.2.patterns.lookup first with
    | none => rfl
    | some clients => exact AList.lookup_insert_ne h

theorem mem_leave (client : String) (acc : Nat × List String × TopicMatcher)
    (first pattern : String) : pattern ∈ (leave client acc first).2.1 ↔ pattern ∈ acc.2.1 ∨
      pattern = first ∧ (acc.2.2.patterns.lookup pattern).map (·.erase client) = some ∅ := by
  unfold leave
  by_cases h : pattern = first
  · subst h
    cases acc.2.2.patterns.lookup pattern with
    | none => simp
    | some clients =>
      by_cases hempty : clients.erase client = ∅ <;> simp [hempty]
  · cases acc.2.2.patterns.lookup first with
    | none => simp [h]
    | some clients =>
      by_cases hempty : clients.erase client = ∅ <;> simp [hempty, h]

/-- What the first loop of `unsubscribe_all` has done after some of the patterns. -/
theorem foldl_leave (client : String) (order : List String) (hnodup : order.Nodup)
    (acc : Nat × List String × TopicMatcher) (pattern : String) :
    (order.foldl (leave client) acc).2.2.patterns.lookup pattern =
      (if pattern ∈ order then (acc.2.2.patterns.lookup pattern).map (·.erase client)
        else acc.2.2.patterns.lookup pattern) ∧
    (pattern ∈ (order.foldl (leave client) acc).2.1 ↔ pattern ∈ acc.2.1 ∨ pattern ∈ order ∧
      (acc.2.2.patterns.lookup pattern).map (·.erase client) = some ∅) := by
  induction order generalizing acc with
  | nil => simp
  | cons first order ih =>
    obtain ⟨hfirst, hrest⟩ := List.nodup_cons.mp hnodup
    obtain ⟨hlookup, hempties⟩ := ih hrest (leave client acc first)
    rw [lookup_leave] at hlookup hempties
    rw [List.foldl_cons, hlookup, hempties, mem_leave]
    by_cases h : pattern = first
    · subst h
      simp [hfirst]
    · simp [h]

/-- `unsubscribe_all` takes the client from every pattern and drops the patterns that have no
other. -/
theorem lookup_unsubscribeAll (client : String) {order : List String}
    (horder : order.Perm m.patterns.keys) (pattern : String) :
    (m.unsubscribeAll client order).2.patterns.lookup pattern =
      (m.patterns.lookup pattern).bind fun clients =>
        if clients.erase client = ∅ then none else some (clients.erase client) := by
  obtain ⟨hlookup, hempties⟩ := foldl_leave client order (horder.nodup_iff.mpr m.patterns.nodupKeys)
    (0, [], m) pattern
  unfold unsubscribeAll
  dsimp only
  rw [Table.lookup_foldl_erase, hlookup]
  cases hpattern : m.patterns.lookup pattern with
  | none =>
    split_ifs <;> rfl
  | some clients =>
    have hmem : pattern ∈ order :=
      horder.mem_iff.mpr (AList.mem_keys.mpr (Table.mem_iff_lookup.mpr ⟨clients, hpattern⟩))
    rw [hpattern] at hempties
    rw [if_pos hmem]
    by_cases hempty : clients.erase client = ∅ <;> simp [hempties, hmem, hempty]

theorem clients_unsubscribeAll (client : String) {order : List String}
    (horder : order.Perm m.patterns.keys) (pattern : String) :
    (m.unsubscribeAll client order).2.clients pattern = (m.clients pattern).erase client := by
  unfold clients
  rw [lookup_unsubscribeAll client horder]
  cases m.patterns.lookup pattern with
  | none => rfl
  | some clients =>
    by_cases hempty : clients.erase client = ∅ <;> simp [hempty]

theorem noEmpty_unsubscribeAll (client : String) {order : List String}
    (horder : order.Perm m.patterns.keys) : (m.unsubscribeAll client order).2.NoEmpty := by
  intro pattern clients hclients
  rw [lookup_unsubscribeAll client horder] at hclients
  obtain ⟨kept, -, hkept⟩ := Option.bind_eq_some_iff.mp hclients
  split_ifs at hkept with hempty
  exact Option.some.inj hkept ▸ hempty

/-- A call changes of the subscriptions exactly those that it is about. -/
theorem step_clients (h : m.NoEmpty) {call : TopicCall} (hstep : m.step call = some t)
    (pattern client : String) : t.NoEmpty ∧ decide (client ∈ t.clients pattern) =
      (verdict pattern client call).getD (decide (client ∈ m.clients pattern)) := by
  cases call with
  | subscribe p c =>
    cases hstep
    refine ⟨h.subscribe p c, ?_⟩
    rw [clients_subscribe]
    unfold verdict
    by_cases hp : pattern = p <;> by_cases hc : client = c <;> simp [hp, hc, eq_comm]
  | unsubscribe p c =>
    cases hstep
    refine ⟨h.unsubscribe p c, ?_⟩
    rw [clients_unsubscribe]
    unfold verdict
    by_cases hp : pattern = p <;> by_cases hc : client = c <;> simp [hp, hc, eq_comm]
  | unsubscribeAll c order =>
    obtain ⟨horder, hstep⟩ := Option.ite_none_right_eq_some.mp hstep
    cases hstep
    refine ⟨noEmpty_unsubscribeAll c horder, ?_⟩
    rw [clients_unsubscribeAll c horder]
    unfold verdict
    by_cases hc : client = c <;> simp [hc, eq_comm]

theorem mem_matched (topic client : String) (order : List String) :
    client ∈ m.matched topic order ↔
      ∃ pattern ∈ order, client ∈ m.clients pattern ∧ patternMatchesByIndex pattern topic = true := by
  have hfold : ∀ found, client ∈ order.foldl (fun matched pattern =>
      if patternMatchesByIndex pattern topic then matched ∪ m.clients pattern else matched) found ↔
        client ∈ found ∨ ∃ pattern ∈ order,
          client ∈ m.clients pattern ∧ patternMatchesByIndex pattern topic = true := by
    induction order with
    | nil => simp
    | cons first order ih =>
      intro found
      rw [List.foldl_cons, ih, List.exists_mem_cons_iff]
      split_ifs with hfirst
      · simp [hfirst, or_assoc]
      · simp [hfirst]
  exact (hfold ∅).trans (or_iff_right (Finset.notMem_empty _))

/-- Patterns match as the grammar says; and after any calls, a topic is given the clients with a
subscribed pattern that matches it, each once, and no pattern is without clients. -/
theorem routes_topics :
    (∀ pattern topic, patternMatchesByIndex pattern topic = true ↔
      pattern = topic ∨ Grammar (segments pattern) (segments topic)) ∧
    ∀ calls m, exec step new calls = some m →
      (∀ topic order result, order.Perm m.patterns.keys → m.MatchTopic topic order result →
        result.Nodup ∧ ∀ client, client ∈ result ↔
          ∃ pattern, Subscribed calls pattern client ∧ patternMatchesByIndex pattern topic = true) ∧
      ∀ pattern clients, m.patterns.lookup pattern = some clients → clients ≠ ∅ := by
  refine ⟨patternMatchesByIndex_iff, fun calls m hexec => ?_⟩
  have hnew : NoEmpty new := nofun
  have hrun : ∀ pattern client, m.NoEmpty ∧ decide (client ∈ m.clients pattern) =
      lastVerdict (verdict pattern client) false calls := by
    intro pattern client
    have hstep : ∀ m call t, NoEmpty m → m.step call = some t → t.NoEmpty ∧
        decide (client ∈ t.clients pattern) =
          (verdict pattern client call).getD (decide (client ∈ m.clients pattern)) :=
      fun m call t hm ht => step_clients hm ht pattern client
    exact exec_lastVerdict hstep hnew hexec
  refine ⟨fun topic order result horder hresult => ⟨?_, fun client => ?_⟩, (hrun "" "").1⟩
  · exact Multiset.coe_nodup.mp (hresult ▸ (m.matched topic order).nodup)
  · have hmem : client ∈ result ↔ client ∈ m.matched topic order := by
      rw [← Multiset.mem_coe, hresult, Finset.mem_val]
    rw [hmem, mem_matched]
    constructor
    · rintro ⟨pattern, -, hclient, hmatches⟩
      exact ⟨pattern, (hrun pattern client).2.symm.trans (decide_eq_true hclient), hmatches⟩
    · rintro ⟨pattern, hsubscribed, hmatches⟩
      have hclient : client ∈ m.clients pattern :=
        of_decide_eq_true ((hrun pattern client).2.trans hsubscribed)
      have hkey : pattern ∈ order := by
        refine horder.mem_iff.mpr (AList.mem_keys.mpr (Table.mem_iff_lookup.mpr ?_))
        unfold clients at hclient
        cases hpattern : m.patterns.lookup pattern with
        | none =>
          rw [hpattern] at hclient
          exact absurd hclient (Finset.notMem_empty _)
        | some clients => exact ⟨clients, rfl⟩
      exact ⟨pattern, hkey, hclient, hmatches⟩

end TopicMatcher

end Hypern.Realtime
