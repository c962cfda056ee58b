import Climate.Store.Processes
import Climate.Store.Shape

/-!
# Operations cut short

`splitWrites` makes two steps of each `fs::write`: the file is emptied, then
filled. An operation cut at any step leaves the store as it would be between
two whole operations, or with one file emptied. So every image that resolved
before still does, unless that file is its marker or its manifest.
-/

namespace Climate

variable {oci : Oci} {own : Option String}

def Store.emptied (s : Store) (path : Path) : Store := s.put path (.file (.text ""))

def splitWrites : Act α → Act α
  | .ret a => .ret a
  | .throw e => .throw e
  | .call (.write p c) next => .call (.truncate p) fun
    | .ok _ => .call (.fill p c) fun r => splitWrites (next r)
    | .error e => splitWrites (next (.error e))
  | .call op next => .call op fun r => splitWrites (next r)
  | .fork limit count tasks next =>
    .fork limit count (fun i => splitWrites (tasks i)) fun r => splitWrites (next r)

theorem splitWrites_write (next : disk.Res (.write path c) → Act α) :
    splitWrites (.call (.write path c) next : Act α) = .call (.truncate path) fun
      | .ok _ => .call (.fill path c) fun r => splitWrites (next r)
      | .error e => splitWrites (next (.error e)) := by
  rw [splitWrites]

theorem write_step {next : Except IoError Unit → Act α} (hfits : s.fits path = true)
    (hadm : oci.Admits path (.file c)) : Prog.Step (Op.effect oci) s
      (.call (.write path c) next : Act α) (s.put path (.file c)) (next (.ok ())) :=
  .call (I := disk) (o := .write path c) (r := .ok ()) ⟨hfits, rfl, hadm⟩

theorem write_fails {next : Except IoError Unit → Act α} : Prog.Step (Op.effect oci) s
    (.call (.write path c) next : Act α) s (next (.error e)) :=
  .call (I := disk) (o := .write path c) (r := .error e) rfl

theorem splitWrites_call {op : Op} {next : op.Res → Act α} (h : op.tame = true) :
    splitWrites (.call op next : Act α) = .call op fun r => splitWrites (next r) := by
  cases op <;> first | rfl | cases h

theorem splitWrites_steady {p : Act α} (h : Steady p) : splitWrites p = p := by
  induction p with
  | ret _ | throw _ => rfl
  | call op next ih =>
    rw [splitWrites_call h.1]
    congr 1
    funext r
    exact ih r (h.2 r)
  | fork limit count tasks next iht ih =>
    simp only [splitWrites]
    congr 1
    · funext i
      exact iht i (h.1 i)
    · funext r
      exact ih r (h.2 r)

-- ---------------------------------------------------------------------------
-- Runs with split writes
-- ---------------------------------------------------------------------------

def UpToWrite (oci : Oci) (own : Option String) (s₀ : Store) (p : Act α) (s : Store) (path : Path)
    (c : Content) (next : Except IoError Unit → Act α) : Prop :=
  Prog.Steps (Op.effect oci) s₀ p s (.call (.write path c) next) ∧
    Tidy own (.call (.write path c) next : Act α) ∧ s.fits path = true

/-- What can be left when a run is cut: the state between two whole
operations, or one with the file of an interrupted or failed write emptied. -/
inductive Cut (oci : Oci) (own : Option String) (s₀ : Store) (p : Act α) : Store → Act α → Prop
  | whole : Prog.Steps (Op.effect oci) s₀ p s p' → Tidy own p' → Cut oci own s₀ p s (splitWrites p')
  | emptied : UpToWrite oci own s₀ p s path c next →
      Cut oci own s₀ p (s.emptied path) (.call (.fill path c) fun r => splitWrites (next r))
  | unfilled : UpToWrite oci own s₀ p s path c next →
      Prog.Steps (Op.effect oci) s₀ (splitWrites p) (s.emptied path)
        (.call (.fill path c) fun r => splitWrites (next r)) →
      Cut oci own s₀ p (s.emptied path) (splitWrites (next (.error e)))

theorem Store.put_put (s : Store) : (s.put p n).put p n' = s.put p n' := AList.insert_insert s

theorem Cut.of_whole {p₁ q : Act α} (h : Prog.Steps (Op.effect oci) s₀ p s p₁)
    (ht : Tidy own p₁) (hs : Prog.Step (Op.effect oci) s (splitWrites p₁) s' q) :
    Cut oci own s₀ p s' q := by
  cases p₁ with
  | ret a => cases hs
  | throw e => cases hs
  | call op next =>
    cases htame : op.tame with
    | true =>
      rw [splitWrites_call htame] at hs
      obtain ⟨r, he, rfl⟩ := Prog.step_call hs
      exact .whole (.tail h (.call he)) (tidy_next ht r)
    | false =>
      cases op with
      | write path c =>
        rw [splitWrites_write] at hs
        obtain ⟨r, he, rfl⟩ := Prog.step_call hs
        cases r with
        | error e =>
          obtain rfl : s' = s := he
          exact .whole (.tail h write_fails) (tidy_next ht _)
        | ok u =>
          obtain ⟨hfits, rfl⟩ := he
          exact .emptied ⟨h, ht, hfits⟩
      | _ => exact absurd (htame.symm.trans ht.1) (by decide)
  | fork limit count tasks next =>
    have hsame : (fun i => splitWrites (tasks i)) = tasks := funext fun i => splitWrites_steady (ht.1 i)
    rw [splitWrites, hsame] at hs
    rcases Prog.step_fork hs with ⟨i, t, hr, hstep, rfl⟩ | ⟨hall, rfl, rfl⟩ | ⟨i, e, hi, rfl, rfl⟩
    · have hrun := Prog.Steps.tail h (.task i hr hstep)
      have ht' := ht.step (.task i hr hstep)
      have hsame' : (fun j => splitWrites (Function.update tasks i t j)) = Function.update tasks i t :=
        funext fun j => splitWrites_steady (ht'.1 j)
      have hcut := Cut.whole hrun ht'
      rwa [splitWrites, hsame'] at hcut
    · exact .whole (.tail h (.join hall)) (ht.2 _)
    · exact .whole (.tail h (.abort i hi)) (ht.2 _)

/-- Every run with split writes can be cut as `Cut` says. -/
theorem cut_of_steps {p q : Act α} (ht : Tidy own p)
    (h : Prog.Steps (Op.effect oci) s₀ (splitWrites p) s q) : Cut oci own s₀ p s q := by
  induction h with
  | refl => exact .whole .refl ht
  | tail hrun' hs ih =>
    cases ih with
    | whole hrun ht' => exact Cut.of_whole hrun ht' hs
    | @emptied s path c next hup =>
      obtain ⟨hrun, ht', hfits⟩ := hup
      obtain ⟨r, he, rfl⟩ := Prog.step_call hs
      cases r with
      | error e =>
        rw [show _ = _ from he]
        exact .unfilled ⟨hrun, ht', hfits⟩ hrun'
      | ok u =>
        obtain ⟨hs', hadm⟩ := he
        have hhas : (s.emptied path).has path = true := (Store.has_put ..).mpr (.inl rfl)
        rw [if_pos hhas, Store.emptied, Store.put_put] at hs'
        subst hs'
        exact .whole (.tail hrun (write_step hfits hadm)) (tidy_next ht' _)
    | @unfilled s path c next e hup _ =>
      obtain ⟨message, hthrow⟩ := hup.2.1.2.1 e
      rw [hthrow] at hs
      cases hs

-- ---------------------------------------------------------------------------
-- What whole operations do to the refs
-- ---------------------------------------------------------------------------

theorem Op.tame_effect {op : Op} {r : op.Res} (h : op.tame = true) (he : op.effect oci s r s')
    (name : String) : s'.lookup (.ref name) = s.lookup (.ref name) := by
  have put : ∀ {p n}, p.isRef = false → (s.put p n).lookup (.ref name) = s.lookup (.ref name) := by
    intro p n hp
    exact Store.lookup_put_other s n (by rintro rfl; cases hp)
  have remove : ∀ {p}, p.isRef = false → (s.remove p).lookup (.ref name) = s.lookup (.ref name) := by
    intro p hp
    exact Store.lookup_remove_other s (by rintro rfl; cases hp)
  cases op with
  | storeExists | «exists» p | isDir p | read p | readDir d | uniqueId | manifest reference
  | manifestRaw d => rw [he.1]
  | createDirAll d | runContainer dirs => rw [show s' = s from he]
  | write p c | truncate p | fill p c => cases h
  | rename p q =>
    have hp : p.isRef = false ∧ q.isRef = false := by simpa [Op.tame] using h
    rcases OrFails.cases he with ⟨_, -, hren, -⟩ | rfl
    · obtain ⟨n, -, -, rfl⟩ := Store.rename_eq_some hren
      rw [Store.lookup_put_other _ _ (by rintro rfl; cases hp.2), remove hp.1]
    · rfl
  | removeFile p =>
    rcases OrFails.cases he with ⟨_, -, -, rfl⟩ | rfl
    · exact remove (by simpa [Op.tame] using h)
    · rfl
  | removeTree p =>
    rcases OrPartly.cases he with rfl | ⟨_, _, -, -, rfl⟩ | rfl
    · exact remove (by simpa [Op.tame] using h)
    · exact put (by simpa [Op.tame] using h)
    · rfl
  | createTree p =>
    rcases OrFails.cases he with ⟨_, -, ⟨-, rfl⟩ | ⟨-, rfl⟩⟩ | rfl
    · rfl
    · exact put (by simpa [Op.tame] using h)
    · rfl
  | unpackEntry p e =>
    rcases OrPartly.cases he with ⟨t, -, rfl⟩ | ⟨t, _, -, rfl⟩ | rfl
    · exact put (by simpa [Op.tame] using h)
    · exact put (by simpa [Op.tame] using h)
    · rfl
  | download p d =>
    rcases OrPartly.cases he with ⟨-, rfl, -⟩ | ⟨-, c, rfl⟩ | rfl
    · exact put (by simpa [Op.tame] using h)
    · exact put (by simpa [Op.tame] using h)
    · rfl
  | runScript p work dirs script =>
    obtain ⟨t, ⟨-, rfl⟩ | rfl⟩ := he
    · exact put (by simpa [Op.tame] using h)
    · rfl

theorem Steady.step_refs {p p' : Act α} (h : Steady p) (hs : Prog.Step (Op.effect oci) s p s' p')
    (name : String) : s'.lookup (.ref name) = s.lookup (.ref name) := by
  induction hs with
  | call he => exact Op.tame_effect h.1 he name
  | task i _ _ ih => exact ih (h.1 i)
  | join _ => rfl
  | abort _ _ => rfl

theorem Steady.steps_refs {p p' : Act α} (h : Steady p) (hs : Prog.Steps (Op.effect oci) s p s' p')
    (name : String) : s'.lookup (.ref name) = s.lookup (.ref name) := by
  suffices hboth : s'.lookup (.ref name) = s.lookup (.ref name) ∧ Steady p' from hboth.1
  induction hs with
  | refl => exact ⟨rfl, h⟩
  | tail _ hstep ih => exact ⟨(ih.2.step_refs hstep name).trans ih.1, ih.2.step hstep⟩

/-- A step of a tidy program leaves the refs alone, or is its last write. -/
theorem Tidy.step_refs {p p' : Act α} (h : Tidy own p)
    (hs : Prog.Step (Op.effect oci) s p s' p') :
    (∀ name, s'.lookup (.ref name) = s.lookup (.ref name)) ∨
      ∃ name ∈ own, ∃ digest, s' = s.put (.ref name) (.file (.text digest)) ∧ Steady p' := by
  cases p with
  | ret _ | throw _ => cases hs
  | call op next =>
    obtain ⟨r, he, rfl⟩ := Prog.step_call hs
    cases htame : op.tame with
    | true => exact .inl (Op.tame_effect htame he)
    | false =>
      cases op with
      | write path c =>
        obtain ⟨hlast, -, -⟩ := h
        rcases OrFails.cases he with ⟨_, -, -, rfl, -⟩ | rfl
        · cases path with
          | ref name =>
            obtain ⟨⟨name', hown, digest, hp, rfl⟩, htail⟩ := hlast rfl
            cases hp
            exact .inr ⟨name, hown, digest, rfl, htail _⟩
          | blob _ _ | layer _ _ | download _ =>
            exact .inl fun name => Store.lookup_put_other s _ (by simp)
        · exact .inl fun _ => rfl
      | _ => exact absurd (htame.symm.trans h.1) (by decide)
  | fork limit count tasks next =>
    left
    rcases Prog.step_fork hs with ⟨i, t, -, hstep, -⟩ | ⟨-, rfl, -⟩ | ⟨i, e, -, rfl, -⟩
    · exact (h.1 i).step_refs hstep
    · exact fun _ => rfl
    · exact fun _ => rfl

structure Recorded (own : Option String) (s₀ s : Store) (p : Act α) : Prop where
  tidy : Tidy own p
  refs : (∀ name, s.lookup (.ref name) = s₀.lookup (.ref name)) ∨
    Steady p ∧ ∃ name ∈ own, (∃ digest, s.marker name = some digest) ∧
      ∀ other, other ≠ name → s.lookup (.ref other) = s₀.lookup (.ref other)

theorem Recorded.step {p p' : Act α} (h : Recorded own s₀ s p)
    (hs : Prog.Step (Op.effect oci) s p s' p') : Recorded own s₀ s' p' := by
  refine ⟨h.tidy.step hs, ?_⟩
  rcases h.refs with hsame | ⟨htame, name, hown, ⟨digest, hd⟩, hother⟩
  · rcases h.tidy.step_refs hs with hstep | ⟨name, hown, digest, rfl, htame⟩
    · exact .inl fun name => (hstep name).trans (hsame name)
    · refine .inr ⟨htame, name, hown, ⟨digest, by simp [Store.marker]⟩, fun other hne => ?_⟩
      rw [Store.lookup_put_other s _ (by simpa using hne), hsame]
  · have hstep := htame.step_refs hs
    refine .inr ⟨htame.step hs, name, hown, ⟨digest, ?_⟩, fun other hne => ?_⟩
    · simpa [Store.marker, hstep] using hd
    · rw [hstep, hother other hne]

theorem Recorded.steps {p p' : Act α} (h : Tidy own p)
    (hs : Prog.Steps (Op.effect oci) s₀ p s p') : Recorded own s₀ s p' := by
  induction hs with
  | refl => exact ⟨h, .inl fun _ => rfl⟩
  | tail _ hstep ih => exact ih.step hstep

-- ---------------------------------------------------------------------------
-- What whole operations do to the images
-- ---------------------------------------------------------------------------

/-- The image recorded under `name`. -/
def Store.Resolves (s : Store) (name digest : String) (m : Manifest) : Prop :=
  s.marker name = some digest ∧ s.Complete digest m

structure Unharmed (s₀ s : Store) : Prop where
  complete : ∀ name d m, s₀.Resolves name d m → s.Complete d m
  markers : ∀ name d, s.marker name = some d → s₀.marker name = some d ∨ ∃ m, s.Complete d m

/-- What a pull or build has done since `s₀`. -/
structure Grown (s₀ : Store) (c : Noted) : Prop where
  kept : ∀ q, q.scratch = false → s₀.has q = true → c.store.has q = true
  fresh : ∀ q ∈ c.mine, s₀.has q = false
  manifests : ∀ d m, s₀.manifestAt d = some m → c.store.manifestAt d = some m
  markers : ∀ name d, c.store.marker name = some d →
    s₀.marker name = some d ∨ ∃ m, c.store.Complete d m

theorem makes_fresh {op : Op} {r : op.Res} (h : q ∈ op.makes r) (he : op.effect oci s r s') :
    q.scratch = false ∧ s.has q = false := by
  unfold Op.makes at h
  split at h
  next id =>
    have hq := Option.mem_toList.mp h
    obtain ⟨algo, name, hd, rfl⟩ := blobFile_eq_some.mp hq
    refine ⟨rfl, ?_⟩
    by_contra hhas
    have hmem : Path.blob algo name ∈ s := AList.lookup_isSome.mp ((Bool.not_eq_false _).mp hhas)
    cases digestPath_eq (by simp [buildAlgo]) hd
    exact (he.2.1 _ hmem).2 (List.infix_refl _)
  · cases h

theorem step_mine {p p' : Act α} (hs : Prog.Step (noted oci) c p c' p') (hq : q ∈ c'.mine) :
    q ∈ c.mine ∨ q.scratch = false ∧ c.store.has q = false := by
  induction hs with
  | call he =>
    rw [he.2.2] at hq
    exact (List.mem_append.mp hq).elim (fun h => .inr (makes_fresh h he.1)) .inl
  | task i _ _ ih => exact ih hq
  | join _ => exact .inl hq
  | abort _ _ => exact .inl hq

theorem Grown.step {p p' : Act α} (h : Grown s₀ c)
    (hs : Prog.Step (noted oci) c p c' p') (hg : c.Extends files c') : Grown s₀ c' := by
  have fresh : ∀ q ∈ c'.mine, s₀.has q = false := by
    intro q hq
    rcases step_mine hs hq with hq | ⟨hscratch, hnone⟩
    · exact h.fresh q hq
    · by_contra hhas
      have := h.kept q hscratch (by simpa using hhas)
      rw [hnone] at this
      cases this
  refine ⟨fun q hq hhas => hg.adds.kept q hq (h.kept q hq hhas), fresh, fun d m hm => ?_, ?_⟩
  · rcases hg.adds.manifests d m (h.manifests d m hm) with hm' | ⟨⟨q, hq, hd⟩, -⟩
    · exact hm'
    -- A manifest filed anew was not there at first.
    · have hmine : q ∈ c'.mine := by
        split at hq
        · exact hq
        · cases hq
      have hhas := Store.manifestAt_has hm hd
      rw [fresh q hmine] at hhas
      cases hhas
  · intro name d hd
    rcases hg.adds.markers name d hd with hd | ⟨m, hm, -⟩
    · rcases h.markers name d hd with hd | ⟨m, hm⟩
      · exact .inl hd
      · exact .inr (hg.adds.complete hm)
    · exact .inr ⟨m, hm⟩

theorem Grown.unharmed (h : Grown s₀ c) : Unharmed s₀ c.store where
  complete _ d m hr := ⟨h.manifests d m hr.2.1, hr.2.2.imp fun q hq => h.kept q (parts_not_scratch hq)⟩
  markers := h.markers

theorem Adding.unharmed {p p' : Act α} {post : α → Noted → Prop} (hs₀ : s₀.Valid oci)
    (hc : ∀ q ∈ counted, q.scratch = false) (h : Adding oci files post ⟨s₀, counted, []⟩ p)
    (hs : Prog.Steps (Op.effect oci) s₀ p s p') : Unharmed s₀ s := by
  obtain ⟨c, rfl, hrun⟩ := hs.lift (F := noted oci) (R := fun s c => c.store = s)
    (by rintro op s r s' c rfl he; exact ⟨⟨s', op.uses r ++ c.counted, op.makes r ++ c.mine⟩, rfl, he, rfl, rfl⟩)
    (show (Noted.mk s₀ counted []).store = s₀ from rfl)
  have run : c.Ok oci ∧ Adding oci files post c p' ∧ Grown s₀ c := by
    clear hs
    induction hrun with
    | refl => exact ⟨⟨hs₀, hc, by simp⟩, h, fun _ _ h => h, by simp, fun _ _ h => h, fun _ _ h => .inl h⟩
    | tail _ hstep ih =>
      obtain ⟨hi, hsafe, hgrown⟩ := ih
      obtain ⟨hi', hg, hsafe'⟩ := hsafe.step Noted.Undisturbed.refl Noted.Undisturbed.trans hi hstep
      refine ⟨hi', hsafe', ?_⟩
      rcases hg with rfl | hg
      · exact hgrown
      · exact hgrown.step hstep hg
  exact run.2.2.unharmed

theorem gcImages_unharmed
    (hs : Prog.Steps (Op.effect oci) s₀ gcImages s p') : Unharmed s₀ s := by
  obtain ⟨hrefs, himages⟩ := gcImages_steps hs
  refine ⟨fun name d m hr => ?_, fun name d hd => .inl (hrefs name ▸ hd)⟩
  have hsame := himages name d m hr.1 hr.2.1
  refine hr.2.imp (fun p hp hhas => ?_) (Store.manifestAt_congr fun p hp => ?_)
  · simpa [Store.has, hsame p hp] using hhas
  · exact hsame p (mem_imageParts.mpr (.inl hp))

-- ---------------------------------------------------------------------------
-- A file emptied
-- ---------------------------------------------------------------------------

/-- Every image still resolves. The one recorded as `own` may be a new one. -/
def Survives (own : Option String) (s₀ s : Store) : Prop :=
  ∀ name d m, s₀.Resolves name d m →
    s.Resolves name d m ∨ name ∈ own ∧ ∃ d' m', s.Resolves name d' m'

def Needed (s₀ : Store) (path : Path) : Prop :=
  ∃ name d m, s₀.Resolves name d m ∧ (path = .ref name ∨ blobFile d = some path)

theorem Unharmed.survives {p : Act α} (h : Unharmed s₀ s) (hr : Recorded own s₀ s p) :
    Survives own s₀ s := by
  intro name d m hres
  have hcomplete := h.complete name d m hres
  have same : s.lookup (.ref name) = s₀.lookup (.ref name) → s.Resolves name d m :=
    fun hlook => ⟨by simpa [Store.marker, hlook] using hres.1, hcomplete⟩
  rcases hr.refs with hsame | ⟨-, name', hown, ⟨digest, hd⟩, hother⟩
  · exact .inl (same (hsame name))
  by_cases hname : name = name'
  · subst hname
    rcases h.markers name digest hd with hold | ⟨m', hm'⟩
    · rw [hres.1] at hold
      cases hold
      exact .inl ⟨hd, hcomplete⟩
    · exact .inr ⟨hown, digest, m', hd, hm'⟩
  · exact .inl (same (hother name hname))

theorem Needed.lost {s : Store} (h : Needed s₀ path)
    (hsame : ∀ name, s.lookup (.ref name) = s₀.lookup (.ref name)) :
    ∃ name, (∃ d m, s₀.Resolves name d m) ∧ ∀ d m, ¬ (s.emptied path).Resolves name d m := by
  obtain ⟨name, d, m, hres, hpath⟩ := h
  refine ⟨name, ⟨d, m, hres⟩, fun d' m' h' => ?_⟩
  rcases hpath with rfl | hblob
  · have hd' : d' = "" := by simpa [Store.emptied, Store.marker, eq_comm] using h'.1
    exact Store.manifestAt_ne_empty h'.2.1 hd'
  · obtain ⟨algo, hex, -, rfl⟩ := blobFile_eq_some.mp hblob
    have hmark : s₀.marker name = some d' := by
      simpa [Store.emptied, Store.marker, hsame] using h'.1
    rw [hres.1] at hmark
    cases hmark
    have hm' := h'.2.1
    rw [Store.emptied, Store.manifestAt_put_self hblob] at hm'
    cases hm'

theorem survives_emptied {s : Store} (h : Unharmed s₀ s)
    (hsame : ∀ name, s.lookup (.ref name) = s₀.lookup (.ref name)) :
    Survives own s₀ (s.emptied path) ↔ ¬ Needed s₀ path := by
  constructor
  · intro hs hneeded
    obtain ⟨name, ⟨d, m, hres⟩, hlost⟩ := hneeded.lost hsame
    rcases hs name d m hres with h' | ⟨-, d', m', h'⟩
    · exact hlost d m h'
    · exact hlost d' m' h'
  · intro hneeded name d m hres
    have hmark : Path.ref name ≠ path := fun hp => hneeded ⟨name, d, m, hres, .inl hp.symm⟩
    refine .inl ⟨?_, ?_⟩
    · simpa [Store.emptied, Store.marker, hmark, hsame] using hres.1
    · refine (h.complete name d m hres).imp (fun q _ hq => (Store.has_put ..).mpr (.inr hq)) ?_
      exact Store.manifestAt_put_other fun q hq hqp => hneeded ⟨name, d, m, hres, .inr (hqp ▸ hq)⟩

-- ---------------------------------------------------------------------------
-- The operations that change the store
-- ---------------------------------------------------------------------------

inductive Change
  | job (job : Job)
  | fetchLayer (layer : Descriptor)

namespace Change

def prog (oci : Oci) : Change → Act Unit
  | .job j => j.prog oci
  | .fetchLayer layer => Climate.fetchLayer layer

def ref (oci : Oci) : Change → Option String
  | .job (.fetchImage reference) => some (markerName reference)
  | .job (.build cfg _) => builtMarker oci cfg
  | .job .gcImages | .fetchLayer _ => none

theorem tidy (oci : Oci) (change : Change) : Tidy (change.ref oci) (change.prog oci) := by
  rcases change with (reference | ⟨cfg, script⟩ | _) | layer
  · exact fetchImage_tidy
  · exact build_tidy
  · exact gcImages_tame.steady.tidy
  · exact fetchLayer_tame.steady.tidy

theorem unharmed {change : Change} (hs₀ : s₀.Valid oci)
    (hs : Prog.Steps (Op.effect oci) s₀ (change.prog oci) s p) : Unharmed s₀ s := by
  have hi : Noted.Ok oci ⟨s₀, [], []⟩ := ⟨hs₀, by simp, by simp⟩
  rcases change with (reference | ⟨cfg, script⟩ | _) | layer
  · exact Adding.unharmed hs₀ (by simp) (fetchImage_adds hi) hs
  · exact Adding.unharmed hs₀ (by simp) (build_adds hi) hs
  · exact gcImages_unharmed hs
  · have hlayer : ∀ q ∈ (layerDir layer.digest).toList, q.scratch = false :=
      fun q hq => layerDir_not_scratch (Option.mem_toList.mp hq)
    have hi : Noted.Ok oci ⟨s₀, (layerDir layer.digest).toList, []⟩ := ⟨hs₀, hlayer, by simp⟩
    have hadds : Adding oci false _ _ (Climate.fetchLayer layer) :=
      fetchLayer_adds hi fun _ => Option.mem_toList.mpr
    exact Adding.unharmed hs₀ hlayer hadds hs

end Change

/-- The run was cut between the two halves of writing `path`, or the second
half failed. -/
def Halfway (oci : Oci) (s₀ : Store) (p : Act α) (path : Path) (s : Store) (q : Act α) : Prop :=
  ∃ c next, Prog.Steps (Op.effect oci) s₀ (splitWrites p) s (.call (.fill path c) next) ∧
    (q = .call (.fill path c) next ∨ ∃ e, q = next (.error e))

theorem cut_at_fill {p : Act α} {next : disk.Res (.fill path c) → Act α} (ht : Tidy own p)
    (h : Prog.Steps (Op.effect oci) s₀ (splitWrites p) s (.call (.fill path c) next)) :
    ∃ s₁ next', UpToWrite oci own s₀ p s₁ path c next' ∧ s = s₁.emptied path := by
  have hcut := cut_of_steps ht h
  generalize hq : (Prog.call (Op.fill path c) next : Act α) = q at hcut
  cases hcut with
  | @whole _ p' _ ht' =>
    cases p' with
    | ret _ | throw _ | fork _ _ _ _ => cases hq
    | call op next' =>
      cases op with
      | write _ _ =>
        rw [splitWrites_write] at hq
        cases hq
      | fill _ _ => cases ht'.1
      | _ => cases hq
  | emptied hup =>
    cases hq
    exact ⟨_, _, hup, rfl⟩
  | @unfilled _ _ _ next' e hup _ =>
    obtain ⟨message, hthrow⟩ := hup.2.1.2.1 e
    rw [hthrow] at hq
    cases hq

theorem UpToWrite.refs {p : Act α} {next : Except IoError Unit → Act α} (ht : Tidy own p)
    (h : UpToWrite oci own s₀ p s path c next) (name : String) :
    s.lookup (.ref name) = s₀.lookup (.ref name) := by
  rcases (Recorded.steps ht h.1).refs with hsame | ⟨htame, -⟩
  · exact hsame name
  · cases htame.1

/-- Cut short at any point, a change leaves every image resolving if and only
if it was not cut halfway through writing a marker or a manifest that one of
them needs. -/
theorem survives_unless_halfway (change : Change) (hs₀ : s₀.Valid oci)
    (hs : Prog.Steps (Op.effect oci) s₀ (splitWrites (change.prog oci)) s q) :
    Survives (change.ref oci) s₀ s ↔
      ∀ path, Needed s₀ path → ¬ Halfway oci s₀ (change.prog oci) path s q := by
  have ht := change.tidy oci
  constructor
  · rintro hsurvives path hneeded ⟨c, next, hrun, -⟩
    obtain ⟨s₁, next', hup, rfl⟩ := cut_at_fill ht hrun
    exact (survives_emptied (Change.unharmed hs₀ hup.1) (hup.refs ht)).mp hsurvives hneeded
  · intro hhalf
    cases cut_of_steps ht hs with
    | whole hrun ht' => exact (Change.unharmed hs₀ hrun).survives (Recorded.steps ht hrun)
    | emptied hup =>
      refine (survives_emptied (Change.unharmed hs₀ hup.1) (hup.refs ht)).mpr fun hneeded => ?_
      exact hhalf _ hneeded ⟨_, _, hs, .inl rfl⟩
    | unfilled hup hfill =>
      refine (survives_emptied (Change.unharmed hs₀ hup.1) (hup.refs ht)).mpr fun hneeded => ?_
      exact hhalf _ hneeded ⟨_, _, hfill, .inr ⟨_, rfl⟩⟩

-- ---------------------------------------------------------------------------
-- A pull of an up-to-date image, cut short
-- ---------------------------------------------------------------------------

namespace Overtaken

theorem pulled_valid : pulled.1.store.Valid registry := by
  have hi : Noted.Ok registry ⟨∅, [], []⟩ := ⟨Store.valid_empty, by simp, by simp⟩
  have hsteps : Prog.Steps (noted registry) _ pull.prog pulled.1 pulled.2 := Prog.run_steps _ _ _ _
  exact ((fetchImage_adds hi).steps Noted.Undisturbed.refl Noted.Undisturbed.trans hi hsteps).1.valid

def again : Change := .job (.fetchImage "example.org/tool:1")

def torn : Store × Act Unit := Prog.run hub 4 (pulled.1.store, splitWrites (again.prog registry))

theorem torn_steps : Prog.Steps (Op.effect registry) pulled.1.store
    (splitWrites (again.prog registry)) torn.1 torn.2 := Prog.run_steps _ _ _ _

theorem pulled_resolves : pulled.1.store.Resolves "example.org+tool:1" "sha256:ab" tool where
  left := by rfl
  right := ⟨by rfl, ⟨.blob "sha256" "c0", by decide, by rfl⟩, by simp [tool]⟩

theorem torn_lost : ¬ Survives (again.ref registry) pulled.1.store torn.1 := by
  have hmarker : torn.1.marker "example.org+tool:1" = some "sha256:ab" := by decide +kernel
  have hmissing : torn.1.manifestAt "sha256:ab" = none := by decide +kernel
  have lost : ∀ d m, ¬ torn.1.Resolves "example.org+tool:1" d m := by
    rintro d m ⟨hd, hm, -⟩
    rw [hmarker] at hd
    cases hd
    rw [hmissing] at hm
    cases hm
  intro h
  rcases h _ _ _ pulled_resolves with h | ⟨-, d, m, h⟩
  · exact lost _ _ h
  · exact lost d m h

end Overtaken

open Overtaken in
theorem survives_unless_halfway_torn : ∃ path, Needed pulled.1.store path ∧
    Halfway registry pulled.1.store (again.prog registry) path torn.1 torn.2 := by
  have h := (survives_unless_halfway again pulled_valid torn_steps).not.mp torn_lost
  simpa using h

open Overtaken in
/-- A pull of an image that is up to date, cut between the halves of writing
its manifest. -/
theorem pull_cut_short_loses_image : ¬ ∀ (oci : Oci) (change : Change) (s₀ s : Store) (q : Act Unit),
    s₀.Valid oci → Prog.Steps (Op.effect oci) s₀ (splitWrites (change.prog oci)) s q →
    Survives (change.ref oci) s₀ s :=
  fun h => torn_lost (h registry again _ _ _ pulled_valid torn_steps)

end Climate
