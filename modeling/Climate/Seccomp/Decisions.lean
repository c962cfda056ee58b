import Climate.Seccomp.UserNamespaces

/-!
# An app's own decisions

What an app lists in its definition is decided by that alone, and every other
syscall as if it had listed nothing.
-/

namespace Climate.Seccomp

variable {target : TargetArch} {run run' : RunConfig} {sea : Seacomb}

-- ---------------------------------------------------------------------------
-- The rules for one syscall
-- ---------------------------------------------------------------------------

theorem partials_allow (names : List String) (g : Granted) :
    (names.foldl Granted.allow g).partials = g.partials.filter (·.1 ∉ names) := by
  induction names generalizing g with
  | nil => simp
  | cons name names ih =>
    rw [List.foldl_cons, ih, Granted.allow, List.filter_filter]
    exact List.filter_congr fun e _ => by simp [Bool.and_comm]

theorem partials_deny (names : List String) (g : Granted) :
    (names.foldl Granted.deny g).partials = g.partials.filter (·.1 ∉ names) := by
  induction names generalizing g with
  | nil => simp
  | cons name names ih =>
    rw [List.foldl_cons, ih, Granted.deny, List.filter_filter]
    exact List.filter_congr fun e _ => by simp [Bool.and_comm]

theorem partials_eq : (granted target run).partials =
    (partialRules target).filter fun e => e.1 ∉ run.seccompDeny ∧ e.1 ∉ run.seccompAllow := by
  rw [granted, partials_deny, partials_allow, List.filter_filter]
  exact List.filter_congr fun e _ => by simp

def addedNames (target : TargetArch) (run : RunConfig) : List String :=
  (granted target run).allowed.dedup.mergeSort (· ≤ ·)

theorem mem_addedNames : name ∈ addedNames target run ↔ name ∈ (granted target run).allowed := by
  simp [addedNames]

theorem addedNames_nodup : (addedNames target run).Nodup :=
  (List.mergeSort_perm _ _).nodup_iff.mpr (List.nodup_dedup _)

theorem addedNames_sorted : (addedNames target run).Pairwise (· ≤ ·) := by
  refine (List.pairwise_mergeSort ?_ ?_ _).imp fun h => by simpa using h
  · intro a b c hab hbc
    simp only [decide_eq_true_eq] at hab hbc ⊢
    exact hab.trans hbc
  · intro a b
    simpa using le_total a b

/-- The rules that may apply to a call of the syscall. -/
def Policy.rulesFor (policy : Policy) (name : String) : List Rule := policy.rules.filter (·.syscall = name)

theorem rulesFor_eq (h : profile sea target run = .ok policy) : policy.rulesFor name =
    (if name ∈ (granted target run).allowed then [allowRule name] else []) ++
      ((granted target run).partials.filter (·.1 = name)).map (·.2) := by
  have hnames : (addedNames target run).filter (· = name) =
      if name ∈ (granted target run).allowed then [name] else [] := by
    have hcount : (addedNames target run).filter (· = name) =
        List.replicate ((addedNames target run).count name) name := by
      simpa [beq_eq_decide] using List.filter_beq name (l := addedNames target run)
    rw [hcount]
    split
    next hmem => rw [List.count_eq_one_of_mem addedNames_nodup (mem_addedNames.mpr hmem)]; rfl
    next hmem => rw [List.count_eq_zero_of_not_mem fun hin => hmem (mem_addedNames.mp hin)]; rfl
  have hpartials : ((granted target run).partials.map (·.2)).filter (·.syscall = name) =
      ((granted target run).partials.filter (·.1 = name)).map (·.2) := by
    rw [List.filter_map]
    refine congrArg _ (List.filter_congr fun e he => ?_)
    simp [partialRules_syscall (mem_partials.mp he).2.2]
  have hadded : ((addedNames target run).map allowRule).filter (·.syscall = name) =
      ((addedNames target run).filter (· = name)).map allowRule := by
    rw [List.filter_map]
    rfl
  rw [Policy.rulesFor, (profile_ok h).2.2.2, List.filter_append, hpartials]
  change ((addedNames target run).map allowRule).filter (·.syscall = name) ++ _ = _
  rw [hadded, hnames]
  split <;> rfl

/-- A decision rests on the rules for the call's syscall. -/
theorem Policy.decide_eq (policy : Policy) (call : Call) : policy.decide call =
    if policy.archs.contains call.arch then
      match (policy.rulesFor call.syscall).find? (·.applies call) with
      | some rule => rule.action
      | none => policy.default
    else policy.badArch := by
  have hfind : (policy.rulesFor call.syscall).find? (·.applies call) =
      policy.rules.find? (·.applies call) := by
    rw [Policy.rulesFor, List.find?_filter]
    refine congrArg (policy.rules.find? ·) (funext fun rule => ?_)
    unfold Rule.applies
    by_cases heq : rule.syscall = call.syscall <;> simp [heq]
  rw [hfind]
  rfl

-- ---------------------------------------------------------------------------
-- What is decided
-- ---------------------------------------------------------------------------

def unlisted (run : RunConfig) : RunConfig := { run with seccompAllow := [], seccompDeny := [] }

/-- The lists decide about what is on them, denials first, and about nothing else. -/
structure LastWord (target : TargetArch) (run : RunConfig) (policy base : Policy) : Prop where
  denied : ∀ call, call.arch ∈ architectures target → call.syscall ∈ run.seccompDeny →
    policy.decide call = .errno eperm
  allowed : ∀ call, call.arch ∈ architectures target → call.syscall ∈ run.seccompAllow →
    call.syscall ∉ run.seccompDeny → policy.decide call = .allow
  others : ∀ call, call.syscall ∉ run.seccompAllow → call.syscall ∉ run.seccompDeny →
    policy.decide call = base.decide call

theorem rulesFor_denied (h : profile sea target run = .ok policy) (hdeny : name ∈ run.seccompDeny) :
    policy.rulesFor name = [] := by
  have hallowed : name ∉ (granted target run).allowed := fun hmem => (mem_allowed.mp hmem).1 hdeny
  have hpartials : (granted target run).partials.filter (·.1 = name) = [] := by
    refine List.filter_eq_nil_iff.mpr fun e he heq => (mem_partials.mp he).1 ?_
    rwa [of_decide_eq_true heq]
  rw [rulesFor_eq h, if_neg hallowed, hpartials]
  rfl

theorem rulesFor_allowed (h : profile sea target run = .ok policy) (hallow : name ∈ run.seccompAllow)
    (hdeny : name ∉ run.seccompDeny) : policy.rulesFor name = [allowRule name] := by
  have hallowed : name ∈ (granted target run).allowed := mem_allowed.mpr ⟨hdeny, .inl hallow⟩
  have hpartials : (granted target run).partials.filter (·.1 = name) = [] := by
    refine List.filter_eq_nil_iff.mpr fun e he heq => (mem_partials.mp he).2.1 ?_
    rwa [of_decide_eq_true heq]
  rw [rulesFor_eq h, if_pos hallowed, hpartials]
  rfl

theorem rulesFor_unlisted (h : profile sea target run = .ok policy)
    (hbase : profile sea target (unlisted run) = .ok base) (hallow : name ∉ run.seccompAllow)
    (hdeny : name ∉ run.seccompDeny) : policy.rulesFor name = base.rulesFor name := by
  have hallowed : name ∈ (granted target run).allowed ↔ name ∈ (granted target (unlisted run)).allowed := by
    have hinitial : Granted.initial target (unlisted run) = Granted.initial target run := rfl
    rw [mem_allowed, mem_allowed, hinitial]
    simp [unlisted, hallow, hdeny]
  have hpartials : (granted target run).partials.filter (·.1 = name) =
      (granted target (unlisted run)).partials.filter (·.1 = name) := by
    rw [partials_eq, partials_eq, List.filter_filter, List.filter_filter]
    refine List.filter_congr fun e _ => ?_
    by_cases heq : e.1 = name
    · simp [heq, hallow, hdeny, unlisted]
    · simp [heq]
  rw [rulesFor_eq h, rulesFor_eq hbase, hpartials]
  simp only [hallowed]

theorem lists_decide (h : profile sea target run = .ok policy)
    (hbase : profile sea target (unlisted run) = .ok base) : LastWord target run policy base := by
  obtain ⟨hdefault, hbad, harchs, -⟩ := profile_ok h
  obtain ⟨hdefault', hbad', harchs', -⟩ := profile_ok hbase
  constructor
  · intro call harch hdeny
    rw [Policy.decide_eq, harchs, if_pos (by simpa using harch), rulesFor_denied h hdeny]
    exact hdefault
  · intro call harch hallow hdeny
    rw [Policy.decide_eq, harchs, if_pos (by simpa using harch), rulesFor_allowed h hallow hdeny]
    simp [allowRule, Rule.applies]
  · intro call hallow hdeny
    rw [Policy.decide_eq, Policy.decide_eq, rulesFor_unlisted h hbase hallow hdeny, harchs, harchs', hdefault,
      hdefault', hbad, hbad']

-- ---------------------------------------------------------------------------
-- The order of the lists
-- ---------------------------------------------------------------------------

structure SameNames (run run' : RunConfig) : Prop where
  allow : ∀ name, name ∈ run.seccompAllow ↔ name ∈ run'.seccompAllow
  deny : ∀ name, name ∈ run.seccompDeny ↔ name ∈ run'.seccompDeny
  capabilities : run.capabilities = run'.capabilities

theorem addedNames_congr (hsame : SameNames run run') : addedNames target run = addedNames target run' := by
  have hinitial : Granted.initial target run = Granted.initial target run' := by
    simp only [Granted.initial, hsame.capabilities]
  have hperm : (addedNames target run).Perm (addedNames target run') := by
    refine (List.perm_ext_iff_of_nodup addedNames_nodup addedNames_nodup).mpr fun name => ?_
    rw [mem_addedNames, mem_addedNames, mem_allowed, mem_allowed, hinitial, hsame.allow, hsame.deny]
  exact hperm.eq_of_pairwise (fun _ _ _ _ => le_antisymm) addedNames_sorted addedNames_sorted

theorem profile_congr (hsame : SameNames run run') : profile sea target run = profile sea target run' := by
  have hpartials : (granted target run).partials = (granted target run').partials := by
    rw [partials_eq, partials_eq]
    simp only [hsame.allow, hsame.deny]
  have hnames : addedNames target run = addedNames target run' := addedNames_congr hsame
  unfold addedNames at hnames
  unfold profile
  rw [hnames, hpartials]

-- ---------------------------------------------------------------------------
-- Filters that can be built
-- ---------------------------------------------------------------------------

theorem checkSyscallNames_ok (h : checkSyscallNames sea run = .ok ()) :
    ∀ name ∈ run.seccompAllow, sea.known name = true := by
  unfold checkSyscallNames at h
  split at h
  next hnone =>
    intro name hname
    simpa using List.find?_eq_none.mp hnone name (List.mem_append_left _ hname)
  · cases h

theorem addAllowed_known (h : addAllowed sea policy name = .ok policy') : sea.known name = true := by
  unfold addAllowed at h
  split at h
  next hknown => exact hknown
  · cases h

theorem foldlM_each {add : Policy → α → Except String Policy} {l : List α} (h : l.foldlM add p = .ok p')
    (ha : a ∈ l) : ∃ q q', add q a = .ok q' := by
  induction l generalizing p with
  | nil => cases ha
  | cons b l ih =>
    rw [List.foldlM_cons] at h
    cases hb : add p b with
    | error message => rw [hb] at h; cases h
    | ok q =>
      rw [hb] at h
      rcases List.mem_cons.mp ha with rfl | ha
      · exact ⟨p, q, hb⟩
      · exact ih h ha

theorem foldlM_builds {add : Policy → α → Except String Policy} {l : List α}
    (hadd : ∀ a ∈ l, ∀ p, ∃ p', add p a = .ok p') (p : Policy) : ∃ p', l.foldlM add p = .ok p' := by
  induction l generalizing p with
  | nil => exact ⟨p, rfl⟩
  | cons a l ih =>
    obtain ⟨q, hq⟩ := hadd a (by simp) p
    rw [List.foldlM_cons, hq]
    exact ih (fun b hb => hadd b (by simp [hb])) q

/-- Names that are known do not keep a filter from being built. -/
theorem profile_builds (htakes : ∀ policy rule, sea.refusal policy rule = none)
    (hvalid : checkSyscallNames sea run = .ok ()) (hbase : profile sea target (unlisted run) = .ok base) :
    ∃ policy, profile sea target run = .ok policy := by
  have hbaseKnown : ∀ name ∈ (Granted.initial target run).allowed, sea.known name = true := by
    intro name hname
    simp only [profile, bind, Except.bind] at hbase
    split at hbase
    · cases hbase
    next q hq =>
      have hmem : name ∈ addedNames target (unlisted run) :=
        mem_addedNames.mpr (mem_allowed.mpr ⟨by simp [unlisted], .inr hname⟩)
      obtain ⟨_, _, hadded⟩ := foldlM_each hq hmem
      exact addAllowed_known hadded
  have hadd : ∀ name ∈ addedNames target run, ∀ p, ∃ p', addAllowed sea p name = .ok p' := by
    intro name hname p
    have hknown : sea.known name = true := by
      rcases (mem_allowed.mp (mem_addedNames.mp hname)).2 with hallow | hinitial
      · exact checkSyscallNames_ok hvalid name hallow
      · exact hbaseKnown name hinitial
    rw [addAllowed, if_pos hknown, Policy.add, htakes]
    exact ⟨_, rfl⟩
  have hpartial : ∀ e ∈ (granted target run).partials, ∀ p, ∃ p', addPartial sea p e = .ok p' := by
    intro e _ p
    rw [addPartial, Policy.add, htakes]
    exact ⟨_, rfl⟩
  simp only [profile, bind, Except.bind]
  obtain ⟨q, hq⟩ := foldlM_builds hadd
    { default := .errno eperm, archs := architectures target, badArch := .errno eperm }
  unfold addedNames at hq
  rw [hq]
  exact foldlM_builds hpartial q

/-- What an app lists is decided by its lists, whatever their order, and
everything else as without them. -/
theorem app_has_last_word (sea : Seacomb) (target : TargetArch) (run : RunConfig)
    (hvalid : checkSyscallNames sea run = .ok ()) :
    (∀ policy base, profile sea target run = .ok policy → profile sea target (unlisted run) = .ok base →
      LastWord target run policy base) ∧
    (∀ run', SameNames run run' → profile sea target run = profile sea target run') ∧
    ((∀ policy rule, sea.refusal policy rule = none) → ∀ base, profile sea target (unlisted run) = .ok base →
      ∃ policy, profile sea target run = .ok policy) :=
  ⟨fun _ _ => lists_decide, fun _ => profile_congr, fun htakes _ => profile_builds htakes hvalid⟩

/-- What the debugger lists twice and on both lists is refused, what is in the
base list too; a syscall of its capability is not. -/
theorem app_has_last_word_debugger : ∃ policy, profile lenient .x86_64 debugger = .ok policy ∧
    policy.decide { arch := .x86, syscall := "socket", args := fun _ => 2 } = .errno eperm ∧
    policy.decide { arch := .x86_64, syscall := "bpf", args := fun _ => 7 } = .allow := by
  obtain ⟨hdecides, -, hbuilds⟩ := app_has_last_word lenient .x86_64 debugger (by decide)
  obtain ⟨base, hbase⟩ : ∃ base, profile lenient .x86_64 (unlisted debugger) = .ok base := profile_lenient
  obtain ⟨policy, h⟩ := hbuilds (fun _ _ => rfl) base hbase
  have hlast := hdecides policy base h hbase
  exact ⟨policy, h, hlast.denied _ (by decide) (by decide), hlast.allowed _ (by decide) (by decide) (by decide)⟩

end Climate.Seccomp
