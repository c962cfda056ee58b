import Climate.Seccomp.Profile

/-!
# No new user namespaces

An app whose definition names none of the three syscalls that can create a
user namespace cannot create one: no name list reaches them, and the rules
left for them let through only calls without the flag.
-/

namespace Climate.Seccomp

variable {target : TargetArch} {run : RunConfig}

-- ---------------------------------------------------------------------------
-- What an app is granted
-- ---------------------------------------------------------------------------

theorem foldl_allow (names : List String) (g : Granted) :
    (∀ name, name ∈ (names.foldl Granted.allow g).allowed ↔ name ∈ names ∨ name ∈ g.allowed) ∧
      ∀ e, e ∈ (names.foldl Granted.allow g).partials ↔ e.1 ∉ names ∧ e ∈ g.partials := by
  induction names generalizing g with
  | nil => simp
  | cons name names ih =>
    obtain ⟨hallowed, hpartials⟩ := ih (g.allow name)
    refine ⟨fun other => ?_, fun e => ?_⟩
    · rw [List.foldl_cons, hallowed, List.mem_cons]
      simp only [Granted.allow, List.mem_cons]
      tauto
    · rw [List.foldl_cons, hpartials]
      simp only [Granted.allow, List.mem_filter, List.mem_cons, decide_eq_true_eq]
      tauto

theorem foldl_deny (names : List String) (g : Granted) :
    (∀ name, name ∈ (names.foldl Granted.deny g).allowed ↔ name ∉ names ∧ name ∈ g.allowed) ∧
      ∀ e, e ∈ (names.foldl Granted.deny g).partials ↔ e.1 ∉ names ∧ e ∈ g.partials := by
  induction names generalizing g with
  | nil => simp
  | cons name names ih =>
    obtain ⟨hallowed, hpartials⟩ := ih (g.deny name)
    refine ⟨fun other => ?_, fun e => ?_⟩
    · rw [List.foldl_cons, hallowed]
      simp only [Granted.deny, List.mem_filter, List.mem_cons, decide_eq_true_eq]
      tauto
    · rw [List.foldl_cons, hpartials]
      simp only [Granted.deny, List.mem_filter, List.mem_cons, decide_eq_true_eq]
      tauto

theorem mem_allowed : name ∈ (granted target run).allowed ↔
    name ∉ run.seccompDeny ∧
      (name ∈ run.seccompAllow ∨ name ∈ (Granted.initial target run).allowed) := by
  rw [granted, (foldl_deny _ _).1, (foldl_allow _ _).1]

theorem mem_partials : e ∈ (granted target run).partials ↔
    e.1 ∉ run.seccompDeny ∧ e.1 ∉ run.seccompAllow ∧ e ∈ partialRules target := by
  rw [granted, (foldl_deny _ _).2, (foldl_allow _ _).2]
  rfl

-- ---------------------------------------------------------------------------
-- The policy
-- ---------------------------------------------------------------------------

def allowRule (name : String) : Rule := { action := .allow, syscall := name }

/-- The policy with more rules at its end. -/
def Policy.plus (policy : Policy) (rules : List Rule) : Policy :=
  { policy with rules := policy.rules ++ rules }

theorem Policy.add_ok {policy policy' : Policy} (h : policy.add sea rule = .ok policy') :
    policy' = policy.plus [rule] := by
  unfold Policy.add at h
  split at h
  · cases h; rfl
  · cases h

theorem addAllowed_ok {policy policy' : Policy} (h : addAllowed sea policy name = .ok policy') :
    policy' = policy.plus [allowRule name] := by
  unfold addAllowed at h
  split at h
  · exact Policy.add_ok h
  · cases h

theorem addPartial_ok {policy policy' : Policy} (h : addPartial sea policy e = .ok policy') :
    policy' = policy.plus [e.2] := by
  unfold addPartial at h
  cases hadd : policy.add sea e.2 with
  | error message => rw [hadd] at h; cases h
  | ok q =>
    rw [hadd] at h
    cases h
    exact Policy.add_ok hadd

theorem foldlM_plus {add : Policy → α → Except String Policy} (rule : α → Rule)
    (hadd : ∀ p p' a, add p a = .ok p' → p' = p.plus [rule a]) {l : List α} {p p' : Policy}
    (h : l.foldlM add p = .ok p') : p' = p.plus (l.map rule) := by
  induction l generalizing p with
  | nil =>
    cases h
    simp [Policy.plus]
  | cons a l ih =>
    rw [List.foldlM_cons] at h
    cases ha : add p a with
    | error message => rw [ha] at h; cases h
    | ok q =>
      rw [ha] at h
      rw [ih h, hadd _ _ _ ha]
      simp [Policy.plus]

theorem profile_ok (h : profile sea target run = .ok policy) :
    policy.default = .errno eperm ∧ policy.badArch = .errno eperm ∧
      policy.archs = architectures target ∧
      policy.rules = ((granted target run).allowed.dedup.mergeSort (· ≤ ·)).map allowRule ++
        (granted target run).partials.map (·.2) := by
  simp only [profile, bind, Except.bind] at h
  split at h
  · cases h
  next q hq =>
    rw [foldlM_plus Prod.snd (fun _ _ _ => addPartial_ok) h,
      foldlM_plus allowRule (fun _ _ _ => addAllowed_ok) hq]
    simp [Policy.plus]

theorem mem_rules (h : profile sea target run = .ok policy) : rule ∈ policy.rules ↔
    (∃ name ∈ (granted target run).allowed, rule = allowRule name) ∨
      ∃ e ∈ (granted target run).partials, rule = e.2 := by
  rw [(profile_ok h).2.2.2]
  simp [eq_comm]

theorem partialRules_syscall (h : e ∈ partialRules target) : e.2.syscall = e.1 := by
  simp only [partialRules, personalities, List.mem_append, List.mem_map, List.mem_cons,
    List.not_mem_nil, or_false] at h
  rcases h with (⟨arch, -, rfl⟩ | rfl | rfl | rfl) | ⟨domain, -, rfl⟩ <;> rfl

/-- The rules for a syscall that an app does not name and that is on no list
are its partial ones. -/
theorem mem_rules_unnamed (h : profile sea target run = .ok policy)
    (hlist : name ∉ (Granted.initial target run).allowed) (hallow : name ∉ run.seccompAllow) :
    (rule ∈ policy.rules ∧ rule.syscall = name) ↔
      name ∉ run.seccompDeny ∧ (name, rule) ∈ partialRules target := by
  rw [mem_rules h]
  constructor
  · rintro ⟨⟨other, hmem, rfl⟩ | ⟨e, he, rfl⟩, rfl⟩
    · rcases (mem_allowed.mp hmem).2 with hmem | hmem
      · exact absurd hmem hallow
      · exact absurd hmem hlist
    · obtain ⟨hdeny, -, hpartial⟩ := mem_partials.mp he
      rw [partialRules_syscall hpartial]
      exact ⟨hdeny, hpartial⟩
  · rintro ⟨hdeny, hpartial⟩
    exact ⟨.inr ⟨_, mem_partials.mpr ⟨hdeny, hallow, hpartial⟩, rfl⟩, partialRules_syscall hpartial⟩

/-- A call is allowed where a rule for it applies and all rules for its
syscall allow it. -/
theorem decide_allow (h : profile sea target run = .ok policy) (harch : call.arch ∈ architectures target)
    (hrule : ∃ rule ∈ policy.rules, rule.applies call = true)
    (hall : ∀ rule ∈ policy.rules, rule.syscall = call.syscall → rule.action = .allow) :
    policy.decide call = .allow := by
  unfold Policy.decide
  rw [(profile_ok h).2.2.1, if_pos (by simpa using harch)]
  split
  next rule hfind =>
    refine hall rule (List.mem_of_find?_eq_some hfind) ?_
    have happlies : rule.applies call = true := List.find?_some (p := fun r => Rule.applies r call) hfind
    simp only [Rule.applies, Bool.and_eq_true, decide_eq_true_eq] at happlies
    exact happlies.1.1
  next hfind =>
    obtain ⟨rule, hmem, happlies⟩ := hrule
    exact absurd happlies (List.find?_eq_none.mp hfind rule hmem)

theorem allowed_by_rule (h : profile sea target run = .ok policy) (hd : policy.decide call = .allow) :
    ∃ rule ∈ policy.rules, rule.applies call = true ∧ rule.action = .allow := by
  obtain ⟨hdefault, hbad, -, -⟩ := profile_ok h
  unfold Policy.decide at hd
  split at hd
  · split at hd
    next rule hfind =>
      exact ⟨rule, List.mem_of_find?_eq_some hfind,
        List.find?_some (p := fun r => Rule.applies r call) hfind, hd⟩
    next => rw [hdefault] at hd; cases hd
  · rw [hbad] at hd; cases hd

-- ---------------------------------------------------------------------------
-- The three syscalls
-- ---------------------------------------------------------------------------

theorem masked_passes {arg : BitVec 64} :
    (Test.masked cloneNewuser 0).passes arg = true ↔ arg.getLsbD 28 = false := by
  have hbit : cloneNewuser = BitVec.twoPow 64 28 := by decide
  have hne : BitVec.twoPow 64 28 ≠ 0#64 := by decide
  rw [Test.passes, decide_eq_true_eq, hbit, BitVec.and_twoPow]
  cases arg.getLsbD 28 <;> simp [hne]

theorem not_listed (h : name ∈ ["clone", "unshare", "clone3"]) :
    name ∉ (Granted.initial target run).allowed := by
  have hbase : ∀ name ∈ ["clone", "unshare", "clone3"], name ∉ allowed := by decide +kernel
  have harch : ∀ target, ∀ name ∈ ["clone", "unshare", "clone3"], name ∉ archAllowed target := by
    intro target
    cases target <;> decide
  have hcap : ∀ name ∈ ["clone", "unshare", "clone3"], ∀ e ∈ capabilitySyscalls, name ∉ e.2 := by
    decide
  simp only [Granted.initial, List.mem_append, List.mem_flatMap, not_or, not_exists, not_and]
  refine ⟨⟨hbase name h, harch target name h⟩, fun e he hmem => ?_⟩
  split at hmem
  · exact hcap name h e he hmem
  · cases hmem

theorem partial_clone : ("clone", rule) ∈ partialRules target ↔ ∃ arch ∈ architectures target,
    rule = { arch := some arch, action := .allow, syscall := "clone",
             test := some (.masked cloneNewuser 0) } := by
  simp [partialRules, eq_comm]

theorem partial_unshare : ("unshare", rule) ∈ partialRules target ↔
    rule = { action := .allow, syscall := "unshare", test := some (.masked cloneNewuser 0) } := by
  simp [partialRules]

theorem partial_clone3 : ("clone3", rule) ∈ partialRules target ↔
    rule = { action := .errno enosys, syscall := "clone3" } := by
  simp [partialRules]

-- ---------------------------------------------------------------------------
-- The filter
-- ---------------------------------------------------------------------------

/-- An app's list leaves the three syscalls to their rules. -/
def LeavesAlone (run : RunConfig) : Prop :=
  ∀ name ∈ run.seccompAllow, name ∉ ["clone", "unshare", "clone3"]

/-- What lets a call of one of the three syscalls through is one of its rules. -/
theorem allowed_by_partial (h : profile sea target run = .ok policy) (hleaves : LeavesAlone run)
    (hname : call.syscall ∈ ["clone", "unshare", "clone3"]) (hd : policy.decide call = .allow) :
    ∃ rule, (call.syscall, rule) ∈ partialRules target ∧ rule.applies call = true ∧
      rule.action = .allow := by
  obtain ⟨rule, hmem, happlies, haction⟩ := allowed_by_rule h hd
  have hsyscall : rule.syscall = call.syscall := by
    simp only [Rule.applies, Bool.and_eq_true, decide_eq_true_eq] at happlies
    exact happlies.1.1
  have hallow : call.syscall ∉ run.seccompAllow := fun hin => hleaves _ hin hname
  have hpartial := (mem_rules_unnamed h (not_listed hname) hallow).mp ⟨hmem, hsyscall⟩
  exact ⟨rule, hpartial.2, happlies, haction⟩

theorem partial_masked (hname : name ∈ ["clone", "unshare"]) (h : (name, rule) ∈ partialRules target) :
    rule.action = .allow ∧ rule.test = some (.masked cloneNewuser 0) := by
  simp only [List.mem_cons, List.not_mem_nil, or_false] at hname
  rcases hname with rfl | rfl
  · obtain ⟨arch, -, rfl⟩ := partial_clone.mp h
    exact ⟨rfl, rfl⟩
  · cases partial_unshare.mp h
    exact ⟨rfl, rfl⟩

theorem exists_partial (hname : call.syscall ∈ ["clone", "unshare"])
    (harch : call.arch ∈ architectures target) (hflag : ¬ call.newUser) :
    ∃ rule, (call.syscall, rule) ∈ partialRules target ∧ rule.applies call = true := by
  have hpasses : (Test.masked cloneNewuser 0#64).passes (call.args 0) = true :=
    masked_passes.mpr (by simpa [Call.newUser] using hflag)
  simp only [List.mem_cons, List.not_mem_nil, or_false] at hname
  rcases hname with hname | hname
  · refine ⟨_, hname ▸ partial_clone.mpr ⟨call.arch, harch, rfl⟩, ?_⟩
    simp [Rule.applies, hname, hpasses]
  · refine ⟨_, hname ▸ partial_unshare.mpr rfl, ?_⟩
    simp [Rule.applies, hname, hpasses]

/-- No call that asks for a new user namespace is allowed, whatever the
capabilities and the names on both lists, and none that does not is refused
unless the app refuses it. -/
theorem profile_blocks_user_namespaces (h : profile sea target run = .ok policy)
    (hleaves : LeavesAlone run) :
    (∀ call, call.syscall ∈ ["clone", "unshare"] → call.newUser → policy.decide call ≠ .allow) ∧
      (∀ call, call.syscall = "clone3" → policy.decide call ≠ .allow) ∧
        ∀ call, call.arch ∈ architectures target → call.syscall ∈ ["clone", "unshare"] →
          ¬ call.newUser → call.syscall ∉ run.seccompDeny → policy.decide call = .allow := by
  refine ⟨fun call hname hflag hd => ?_, fun call hname hd => ?_, fun call harch hname hflag hdeny => ?_⟩
  · have hthree : call.syscall ∈ ["clone", "unshare", "clone3"] := by
      simp only [List.mem_cons, List.not_mem_nil, or_false] at hname ⊢
      tauto
    obtain ⟨rule, hpartial, happlies, -⟩ := allowed_by_partial h hleaves hthree hd
    have htest := (partial_masked hname hpartial).2
    simp only [Rule.applies, htest, Option.all_some, Bool.and_eq_true] at happlies
    rw [Call.newUser, masked_passes.mp happlies.2] at hflag
    cases hflag
  · obtain ⟨rule, hpartial, -, haction⟩ := allowed_by_partial h hleaves (by simp [hname]) hd
    rw [hname, partial_clone3] at hpartial
    subst hpartial
    cases haction
  · have hthree : call.syscall ∈ ["clone", "unshare", "clone3"] := by
      simp only [List.mem_cons, List.not_mem_nil, or_false] at hname ⊢
      tauto
    have hallow : call.syscall ∉ run.seccompAllow := fun hin => hleaves _ hin hthree
    have hrules : ∀ rule, (rule ∈ policy.rules ∧ rule.syscall = call.syscall) ↔
        call.syscall ∉ run.seccompDeny ∧ (call.syscall, rule) ∈ partialRules target :=
      fun rule => mem_rules_unnamed h (not_listed hthree) hallow
    refine decide_allow h harch ?_ fun rule hmem hsyscall => ?_
    · obtain ⟨rule, hpartial, happlies⟩ := exists_partial hname harch hflag
      exact ⟨rule, ((hrules rule).mpr ⟨hdeny, hpartial⟩).1, happlies⟩
    · exact (partial_masked hname ((hrules rule).mp ⟨hmem, hsyscall⟩).2).1

def lenient : Seacomb := { known := fun _ => true }

theorem foldlM_returns {step : Policy → α → Except String Policy}
    (hstep : ∀ p a, ∃ p', step p a = .ok p') (l : List α) (p : Policy) :
    ∃ p', l.foldlM step p = .ok p' := by
  induction l generalizing p with
  | nil => exact ⟨p, rfl⟩
  | cons a l ih =>
    obtain ⟨q, hq⟩ := hstep p a
    rw [List.foldlM_cons, hq]
    exact ih q

theorem profile_lenient : ∃ policy, profile lenient target run = .ok policy := by
  simp only [profile, bind, Except.bind]
  have hadd : ∀ p name, ∃ p', addAllowed lenient p name = .ok p' := fun p name => ⟨_, rfl⟩
  obtain ⟨q, hq⟩ := foldlM_returns hadd ((granted target run).allowed.dedup.mergeSort (· ≤ ·))
    { default := .errno eperm, archs := architectures target, badArch := .errno eperm }
  rw [hq]
  exact foldlM_returns (fun p e => ⟨_, rfl⟩) _ q

/-- An app with a capability of its own, names on both lists and one twice. -/
def debugger : RunConfig :=
  { capabilities := [.sysPtrace, .sysAdmin], seccompAllow := ["socket", "bpf", "socket"],
    seccompDeny := ["unshare", "socket"] }

theorem profile_blocks_user_namespaces_debugger : ∃ policy,
    profile lenient .x86_64 debugger = .ok policy ∧
      (∀ call, call.syscall ∈ ["clone", "unshare"] → call.newUser → policy.decide call ≠ .allow) ∧
        policy.decide { arch := .x86, syscall := "clone", args := fun _ => 0x11 } = .allow := by
  obtain ⟨policy, h⟩ : ∃ policy, profile lenient .x86_64 debugger = .ok policy := profile_lenient
  have hblocks := profile_blocks_user_namespaces h
    (by simp only [LeavesAlone, debugger]; decide)
  exact ⟨policy, h, hblocks.1,
    hblocks.2.2 _ (by decide) (by simp) (by simp [Call.newUser]) (by simp [debugger])⟩

end Climate.Seccomp
