import Climate.Store.Calm
import Climate.Store.Closure

/-!
# Unpacking one layer several times at once

The staging directory of a layer is named after its digest alone, so all that
unpack the layer at one time share it. Any number of them run here, each step
one operation. Unless one takes away what another, still running, has
written there, a layer that is in its place is whole.
-/

namespace Climate

variable {oci : Oci}

/-- The tree has what the archive gives for the path. -/
def Tree.Has (archive : List TarEntry) (t : Tree) (path : String) : Prop :=
  ∃ e ∈ t, e.path = path ∧ e ∈ archive

/-- Every entry of the archive is in its place. -/
def Tree.Whole (archive : List TarEntry) (t : Tree) : Prop := ∀ e ∈ archive, t.Has archive e.path

theorem Tree.Has.write {t : Tree} (h : t.Has archive path) (he : e ∈ archive) :
    (t.write e).Has archive path := by
  obtain ⟨e', hmem, hp, he'⟩ := h
  by_cases heq : e'.path = e.path
  · exact ⟨e, List.mem_cons_self, heq.symm.trans hp, he⟩
  · exact ⟨e', List.mem_cons_of_mem _ (List.mem_filter.mpr ⟨hmem, by simpa using heq⟩), hp, he'⟩

theorem Tree.write_has {t : Tree} (he : e ∈ archive) : (t.write e).Has archive e.path :=
  ⟨e, List.mem_cons_self, rfl, he⟩

/-- Where one layer is unpacked, and what. -/
structure Site where
  staging : Path
  dest : Path
  archive : List TarEntry

namespace Site

/-- The layer is whole or not there at all. -/
def Sound (site : Site) (s : Store) : Prop :=
  ∀ n, s.lookup site.dest = some n → ∃ t, n = .dir t ∧ t.Whole site.archive

/-- What is in the staging directory stays there, or has become the layer. -/
def Keeps (site : Site) (s s' : Store) : Prop :=
  ∀ t, s.lookup site.staging = some (.dir t) → s'.has site.dest = true ∨
    ∃ t', s'.lookup site.staging = some (.dir t') ∧
      ∀ path, t.Has site.archive path → t'.Has site.archive path

end Site

-- ---------------------------------------------------------------------------
-- Executions
-- ---------------------------------------------------------------------------

/-- `wrote` tells whether an entry has been written. -/
structure Extraction where
  prog : Act Unit
  wrote : Bool := false

structure Pool where
  store : Store
  running : List Extraction

def Op.writes : Op → Bool
  | .unpackEntry .. => true
  | _ => false

/-- The operations, along with whether an entry has been written. -/
def marking (oci : Oci) : Effects disk (Store × Bool) := fun op c r c' =>
  op.effect oci c.1 r c'.1 ∧ c'.2 = (c.2 || op.writes)

/-- An execution starts on a file that holds the archive, goes on where that
is `allowed` among the others, or leaves, having ended or been killed. -/
inductive Pool.Step (oci : Oci) (digest : String) (allowed : List Extraction → Store → Store → Prop) :
    Pool → Pool → Prop
  | start (temp mediaType : String) : s.lookup (.download temp) = some (.file (oci.content digest)) →
      Step oci digest allowed ⟨s, xs⟩
        ⟨s, xs ++ [{ prog := extractLayer (.download temp) digest mediaType }]⟩
  | work (before after : List Extraction) :
      Prog.Step (marking oci) (s, x.wrote) x.prog (s', wrote) p → allowed (before ++ after) s s' →
      Step oci digest allowed ⟨s, before ++ x :: after⟩ ⟨s', before ++ { prog := p, wrote } :: after⟩
  | leave (before after : List Extraction) :
      Step oci digest allowed ⟨s, before ++ x :: after⟩ ⟨s, before ++ after⟩

inductive Pool.Run (oci : Oci) (digest : String) (allowed : List Extraction → Store → Store → Prop)
    (p : Pool) : Pool → Prop
  | refl : Run oci digest allowed p p
  | tail : Run oci digest allowed p p' → Step oci digest allowed p' p'' → Run oci digest allowed p p''

/-- Nothing is taken from the staging directory while another execution that
has written there is still running. -/
def Site.Spares (site : Site) (others : List Extraction) (s s' : Store) : Prop :=
  (∃ x ∈ others, x.wrote = true ∧ x.prog.ended = false) → site.Keeps s s'

-- ---------------------------------------------------------------------------
-- One operation
-- ---------------------------------------------------------------------------

/-- An operation that only looks or works on `p` alone. -/
def Op.confined (p : Path) : Op → Bool
  | .createDirAll _ | .read _ => true
  | .removeTree q | .createTree q | .unpackEntry q _ => q = p
  | _ => false

theorem Op.confined_effect {op : Op} {r : op.Res} {s s' : Store} (hc : op.confined p = true)
    (he : op.effect oci s r s') :
    (∀ q, q ≠ p → s'.lookup q = s.lookup q) ∧
      ∀ c, s'.lookup p = some (.file c) → s.lookup p = some (.file c) := by
  have same : ∀ {s' : Store}, s' = s → (∀ q, q ≠ p → s'.lookup q = s.lookup q) ∧
      ∀ c, s'.lookup p = some (.file c) → s.lookup p = some (.file c) := by
    rintro _ rfl
    exact ⟨fun _ _ => rfl, fun _ h => h⟩
  have put : ∀ {s' : Store} {t}, s' = s.put p (.dir t) → (∀ q, q ≠ p → s'.lookup q = s.lookup q) ∧
      ∀ c, s'.lookup p = some (.file c) → s.lookup p = some (.file c) := by
    rintro _ t rfl
    exact ⟨fun q hq => Store.lookup_put_other s _ hq, fun c h => by simp at h⟩
  cases op with
  | createDirAll d => exact same he
  | read q => exact same he.1
  | removeTree q =>
    obtain rfl : q = p := by simpa [Op.confined] using hc
    rcases OrPartly.cases he with rfl | ⟨_, t, -, -, h⟩ | h
    · exact ⟨fun q hq => Store.lookup_remove_other s hq, fun c h => by simp at h⟩
    · exact put h
    · exact same h
  | createTree q =>
    obtain rfl : q = p := by simpa [Op.confined] using hc
    rcases OrFails.cases he with ⟨_, -, ⟨-, h⟩ | ⟨-, h⟩⟩ | h
    · exact same h
    · exact put h
    · exact same h
  | unpackEntry q e =>
    obtain rfl : q = p := by simpa [Op.confined] using hc
    rcases OrPartly.cases he with ⟨t, -, h⟩ | ⟨t, _, -, h⟩ | h
    · exact put h
    · exact put h
    · exact same h
  | _ => cases hc

namespace Site

/-- What the other executions may do, `c.2` being whether this one has written. -/
structure Rely (site : Site) (c c' : Store × Bool) : Prop where
  wrote : c'.2 = c.2
  downloads : ∀ name, c'.1.lookup (.download name) = c.1.lookup (.download name)
  dest : c.1.has site.dest = true → c'.1.has site.dest = true
  noFile : ∀ x, c'.1.lookup site.staging = some (.file x) → c.1.lookup site.staging = some (.file x)
  keeps : c.2 = true → site.Keeps c.1 c'.1

structure Guar (site : Site) (c c' : Store × Bool) : Prop where
  downloads : ∀ name, c'.1.lookup (.download name) = c.1.lookup (.download name)
  dest : c.1.has site.dest = true → c'.1.has site.dest = true
  noFile : ∀ x, c'.1.lookup site.staging = some (.file x) → c.1.lookup site.staging = some (.file x)

theorem Keeps.trans {site : Site} {a b c : Store} (h : site.Keeps a b) (h' : site.Keeps b c)
    (hdest : b.has site.dest = true → c.has site.dest = true) : site.Keeps a c := by
  intro t ht
  rcases h t ht with hd | ⟨t', ht', hall⟩
  · exact .inl (hdest hd)
  · exact (h' t' ht').imp_right fun ⟨t'', ht'', hall'⟩ => ⟨t'', ht'', fun p hp => hall' p (hall p hp)⟩

theorem Rely.refl (site : Site) (c : Store × Bool) : site.Rely c c :=
  ⟨rfl, fun _ => rfl, fun h => h, fun _ h => h, fun _ t ht => .inr ⟨t, ht, fun _ h => h⟩⟩

theorem Rely.trans (site : Site) (a b c : Store × Bool) (h : site.Rely a b) (h' : site.Rely b c) :
    site.Rely a c where
  wrote := h'.wrote.trans h.wrote
  downloads name := (h'.downloads name).trans (h.downloads name)
  dest hd := h'.dest (h.dest hd)
  noFile x hx := h.noFile x (h'.noFile x hx)
  keeps hw := (h.keeps hw).trans (h'.keeps (h.wrote.trans hw)) h'.dest

/-- The two places are apart from each other and from the downloads. -/
structure Apart (site : Site) : Prop where
  dest : site.dest ≠ site.staging
  downloads : ∀ name, Path.download name ≠ site.staging ∧ Path.download name ≠ site.dest

theorem confined_ok {site : Site} {op : Op} {r : op.Res} {c c' : Store × Bool} (ha : site.Apart)
    (hc : op.confined site.staging = true) (hi : site.Sound c.1) (he : marking oci op c r c') :
    site.Sound c'.1 ∧ site.Guar c c' := by
  obtain ⟨hother, hfile⟩ := Op.confined_effect hc he.1
  refine ⟨fun n hn => hi n ?_, fun name => hother _ (ha.downloads name).1, fun hd => ?_, hfile⟩
  · rwa [hother _ ha.dest] at hn
  · simpa [Store.has, hother _ ha.dest] using hd

end Site

abbrev Extracting (oci : Oci) (site : Site) (post : α → Store × Bool → Prop) (c : Store × Bool)
    (p : Act α) : Prop :=
  Prog.Safe (marking oci) (fun c => site.Sound c.1) site.Rely site.Guar post c p

namespace Extracting

open Site

theorem bind {site : Site} {p : Act α} {f : α → Act β} {Q : α → Store × Bool → Prop}
    {post : β → Store × Bool → Prop} (h : Extracting oci site Q c p) (hi : site.Sound c.1)
    (hf : ∀ a c', site.Sound c'.1 → Q a c' → Extracting oci site post c' (f a)) :
    Extracting oci site post c (p >>= f) := Prog.Safe.bind (Rely.refl site) h hi hf

theorem confined {site : Site} {op : Op} {read : op.Res → Except String α}
    {post : α → Store × Bool → Prop} (ha : site.Apart) (hc : op.confined site.staging = true)
    (hpost : ∀ c₁ r c₂ a, site.Rely c c₁ → site.Guar c₁ c₂ → marking oci op c₁ r c₂ →
      read r = .ok a → post a c₂)
    (hstable : ∀ a c c', site.Rely c c' → post a c → post a c') :
    Extracting oci site post c (Prog.ask op read) := by
  refine Prog.Safe.ask (fun c₁ r c₂ hi _ he => confined_ok ha hc hi he) ?_
  intro c₁ r c₂ c₃ a hi hrely he hr _ hrely'
  exact hstable a c₂ c₃ hrely' (hpost c₁ r c₂ a hrely (confined_ok ha hc hi he).2 he hr)

end Extracting

-- ---------------------------------------------------------------------------
-- One execution
-- ---------------------------------------------------------------------------

namespace Site

/-- The entries written so far are in the staging directory, or the layer is
in its place. -/
def Held (site : Site) (done : List TarEntry) (c : Store × Bool) : Prop :=
  done = [] ∨ c.2 = true ∧ (c.1.has site.dest = true ∨
    ∃ t, c.1.lookup site.staging = some (.dir t) ∧ ∀ e ∈ done, t.Has site.archive e.path)

def NoFile (site : Site) (c : Store × Bool) : Prop := ∀ x, c.1.lookup site.staging ≠ some (.file x)

theorem Held.rely {site : Site} {c c' : Store × Bool} (h : site.Held done c) (hr : site.Rely c c') :
    site.Held done c' := by
  refine h.imp_right fun ⟨hw, h⟩ => ⟨hr.wrote.trans hw, ?_⟩
  rcases h with hd | ⟨t, ht, hall⟩
  · exact .inl (hr.dest hd)
  · exact (hr.keeps hw t ht).imp_right fun ⟨t', ht', hkeep⟩ =>
      ⟨t', ht', fun e he => hkeep _ (hall e he)⟩

theorem NoFile.rely {site : Site} {c c' : Store × Bool} (h : site.NoFile c) (hr : site.Rely c c') :
    site.NoFile c' := fun x hx => h x (hr.noFile x hx)

theorem NoFile.guar {site : Site} {c c' : Store × Bool} (h : site.NoFile c) (hg : site.Guar c c') :
    site.NoFile c' := fun x hx => h x (hg.noFile x hx)

end Site

open Site

variable {site : Site} {archive : List TarEntry}

theorem unpackEntry_extracting (ha : site.Apart) (he : e ∈ site.archive) (hn : site.NoFile c)
    (hh : site.Held done c) :
    Extracting oci site (fun _ c => site.NoFile c ∧ site.Held (done ++ [e]) c) c
      (Prog.ask (.unpackEntry site.staging e) (orFail message) : Act Unit) := by
  refine .confined ha (by simp [Op.confined]) (fun c₁ r c₂ a hrely hguar heff hr => ?_)
    fun _ _ _ hrely h => ⟨h.1.rely hrely, h.2.rely hrely⟩
  rw [orFail_ok.mp hr] at heff
  obtain ⟨⟨t, ht, hs⟩, hw⟩ := heff
  refine ⟨(hn.rely hrely).guar hguar, .inr ⟨by rw [hw]; simp [Op.writes], ?_⟩⟩
  have hlook : c₂.1.lookup site.staging = some (.dir (t.write e)) := by
    rw [hs, Store.lookup_put_self]
  have new : ∀ x ∈ [e], (t.write e).Has site.archive x.path := by
    intro x hx
    cases List.mem_singleton.mp hx
    exact Tree.write_has he
  rcases hh.rely hrely with rfl | ⟨-, hd | ⟨t', ht', hall⟩⟩
  · exact .inr ⟨_, hlook, by simpa using new⟩
  · exact .inl (hguar.dest hd)
  · rw [ht] at ht'
    cases ht'
    refine .inr ⟨_, hlook, fun x hx => ?_⟩
    rcases List.mem_append.mp hx with hx | hx
    · exact (hall x hx).write he
    · exact new x hx

theorem unpackEntries_extracting (done : List TarEntry) (ha : site.Apart) (hi : site.Sound c.1)
    (hn : site.NoFile c)
    (hh : site.Held done c) (hsub : ∀ e ∈ rest, e ∈ site.archive) :
    Extracting oci site (fun _ c => site.NoFile c ∧ site.Held (done ++ rest) c) c
      (rest.forM fun e => (Prog.ask (.unpackEntry site.staging e) (orFail message) : Act Unit)) := by
  induction rest generalizing c done with
  | nil => exact .ret fun c' _ hr => ⟨hn.rely hr, by simpa using hh.rely hr⟩
  | cons e rest ih =>
    refine (unpackEntry_extracting ha (hsub e (by simp)) hn hh).bind hi fun _ c hi ⟨hn, hh⟩ => ?_
    simpa using ih _ hi hn hh fun x hx => hsub x (by simp [hx])

/-- The staging directory takes the layer's place only if it is whole. -/
theorem finalise_extracting (ha : site.Apart) (hn : site.NoFile c) (hh : site.Held site.archive c) :
    Extracting oci site (fun _ _ => True) c
      (Prog.ask (.rename site.staging site.dest) (orFail message) : Act Unit) := by
  refine Prog.Safe.ask (fun c₁ r c₂ hi hrely he => ?_) fun _ _ _ _ _ _ _ _ _ _ _ => trivial
  rcases OrFails.cases he.1 with ⟨_, -, hren, -⟩ | hs
  · obtain ⟨n, hlook, hrep, hs⟩ := Store.rename_eq_some hren
    have hdir : ∃ t, n = .dir t ∧ t.Whole site.archive := by
      cases n with
      | file x => exact absurd hlook (hn.rely hrely x)
      | dir t =>
        refine ⟨t, rfl, ?_⟩
        rcases hh.rely hrely with hnil | ⟨-, hd | ⟨t', ht', hall⟩⟩
        · simp [Tree.Whole, hnil]
        · -- The layer is already there. Only over an empty one does the rename go through.
          obtain ⟨n', hn'⟩ := Store.has_iff.mp hd
          obtain ⟨t', rfl, hwhole⟩ := hi n' hn'
          simp only [hn', Store.replaceable, List.isEmpty_iff] at hrep
          subst hrep
          exact fun e he => by obtain ⟨_, hmem, -⟩ := hwhole e he; cases hmem
        · rw [hlook] at ht'
          cases ht'
          exact hall
    have hlookup : c₂.1.lookup site.dest = some n := by rw [hs, Store.lookup_put_self]
    refine ⟨fun n' hn' => ?_, fun name => ?_, fun _ => Store.has_iff.mpr ⟨n, hlookup⟩, fun x hx => ?_⟩
    · rw [hlookup] at hn'
      cases hn'
      exact hdir
    · rw [hs, Store.lookup_put_other _ _ (ha.downloads name).2,
        Store.lookup_remove_other _ (ha.downloads name).1]
    · rw [hs, Store.lookup_put_other _ _ ha.dest.symm, Store.lookup_remove_self] at hx
      cases hx
  · rw [hs]
    exact ⟨hi, fun _ => by rw [hs], fun h => by rwa [hs], fun x hx => by rwa [hs] at hx⟩

theorem supported_archive {digest : String} (ha : site.Apart) (hi : site.Sound c.1)
    (hn : site.NoFile c) (hfile : file = .archive site.archive) :
    Extracting oci site (fun _ c => site.NoFile c ∧ site.Held site.archive c) c
      (unpack site.staging digest file) := by
  subst hfile
  refine Extracting.bind (Q := fun _ c => site.NoFile c) (.confined ha (by simp [Op.confined]) ?_ ?_)
    hi fun _ c hi hn => ?_
  · exact fun c₁ _ c₂ _ hrely hguar _ _ => (hn.rely hrely).guar hguar
  · exact fun _ _ _ hrely h => h.rely hrely
  · exact unpackEntries_extracting [] ha hi hn (.inl rfl) fun _ he => he

def layerSite (algo name : String) (archive : List TarEntry) : Site where
  staging := .layer algo (stagingName name)
  dest := .layer algo name
  archive

theorem layerSite_apart (h : isClean name = true) : (layerSite algo name archive).Apart where
  dest h' := by
    have hs := isStaging_stagingName name
    injection h' with _ hname
    rw [← hname, isStaging_clean h] at hs
    cases hs
  downloads _ := ⟨by simp [layerSite], by simp [layerSite]⟩

theorem extractLayer_extracting (hd : digestPath digest = .ok (algo, name))
    (harchive : oci.content digest = .archive archive)
    (hi : (layerSite algo name archive).Sound c.1)
    (htemp : c.1.lookup (.download temp) = some (.file (oci.content digest))) :
    Extracting oci (layerSite algo name archive) (fun _ _ => True) c
      (extractLayer (.download temp) digest mediaType) := by
  have ha : (layerSite algo name archive).Apart := layerSite_apart (digestPath_ok hd).2.2
  unfold extractLayer
  simp only [hd, Prog.ofExcept, Prog.ret_bind]
  refine Extracting.bind (Q := fun _ c => c.1.lookup (.download temp) = some (.file (oci.content digest)))
    (.confined ha rfl ?_ fun _ _ _ hr h => (hr.downloads temp).trans h) hi fun _ c hi htemp => ?_
  · exact fun c₁ _ c₂ _ hr hg _ _ => (hg.downloads temp).trans ((hr.downloads temp).trans htemp)
  refine Extracting.bind (Q := fun _ c =>
      c.1.lookup (.download temp) = some (.file (oci.content digest)) ∧ (layerSite algo name archive).NoFile c)
    (.confined ha (by simp [Op.confined, layerSite]) ?_
      fun _ _ _ hr h => ⟨(hr.downloads temp).trans h.1, h.2.rely hr⟩) hi fun _ c hi ⟨htemp, hn⟩ => ?_
  · intro c₁ r c₂ _ hr hg he hok
    refine ⟨(hg.downloads temp).trans ((hr.downloads temp).trans htemp), fun x hx => ?_⟩
    rw [orFail_ok.mp hok] at he
    have hs : c₂.1 = c₁.1.remove (.layer algo (stagingName name)) := he.1
    rw [hs] at hx
    simp [layerSite] at hx
  refine Extracting.bind (Q := fun (file : Content) c => file = .archive archive ∧
    (layerSite algo name archive).NoFile c)
    (.confined ha rfl ?_ fun _ _ _ hr h => ⟨h.1, h.2.rely hr⟩) hi fun file c hi ⟨hfile, hn⟩ => ?_
  · intro c₁ r c₂ file hr hg he hok
    rw [orFail_ok.mp hok] at he
    have hlook : c₁.1.lookup (.download temp) = some (.file file) := he.1.2
    rw [hr.downloads, htemp, harchive] at hlook
    cases hlook
    exact ⟨rfl, (hn.rely hr).guar hg⟩
  split
  · refine (supported_archive ha hi hn hfile).bind hi fun _ c hi ⟨hn, hh⟩ => ?_
    exact finalise_extracting ha hn hh
  · exact .throw

-- ---------------------------------------------------------------------------
-- Pools
-- ---------------------------------------------------------------------------

structure Pool.Ok (oci : Oci) (site : Site) (p : Pool) : Prop where
  sound : site.Sound p.store
  running : ∀ x ∈ p.running, Extracting oci site (fun _ _ => True) (p.store, x.wrote) x.prog

/-- An execution that has ended has nothing left to rely on. -/
theorem extracting_ended {p : Act Unit} (h : p.ended = true) :
    Extracting oci site (fun _ _ => True) c p := by
  cases p with
  | ret _ => exact .ret fun _ _ _ => trivial
  | throw _ => exact .throw
  | call _ _ | fork _ _ _ _ => cases h

theorem Pool.Ok.work (h : Pool.Ok oci site ⟨s, before ++ x :: after⟩)
    (hstep : Prog.Step (marking oci) (s, x.wrote) x.prog (s', wrote) p)
    (hspares : site.Spares (before ++ after) s s') :
    Pool.Ok oci site ⟨s', before ++ { prog := p, wrote } :: after⟩ := by
  obtain ⟨hi, hguar, hsafe⟩ := (h.running x (by simp)).step (Rely.refl site) (Rely.trans site) h.sound hstep
  refine ⟨hi, fun y hy => ?_⟩
  have hcases : y = { prog := p, wrote } ∨ y ∈ before ++ after := by
    simp only [List.mem_append, List.mem_cons] at hy ⊢
    tauto
  rcases hcases with rfl | hother
  · exact hsafe
  have hmem : y ∈ before ++ x :: after := by
    simp only [List.mem_append, List.mem_cons] at hother ⊢
    tauto
  cases hended : y.prog.ended with
  | true => exact extracting_ended hended
  | false =>
    have hkeeps : y.wrote = true → site.Keeps s s' := fun hw => hspares ⟨y, hother, hw, hended⟩
    refine (h.running y hmem).interfere (Rely.trans site) ?_
    rcases hguar with hsame | hguar
    · cases hsame
      exact .refl _ _
    · exact ⟨rfl, hguar.downloads, hguar.dest, hguar.noFile, hkeeps⟩

theorem Pool.Ok.step (hd : digestPath digest = .ok (algo, name))
    (harchive : oci.content digest = .archive archive) {p p' : Pool}
    (h : p.Ok oci (layerSite algo name archive))
    (hs : Pool.Step oci digest (layerSite algo name archive).Spares p p') :
    p'.Ok oci (layerSite algo name archive) := by
  cases hs with
  | start temp mediaType htemp =>
    refine ⟨h.sound, fun x hx => ?_⟩
    rcases List.mem_append.mp hx with hx | hx
    · exact h.running x hx
    · cases List.mem_singleton.mp hx
      exact extractLayer_extracting hd harchive h.sound htemp
  | work _ _ hstep hspares => exact h.work hstep hspares
  | leave _ _ =>
    refine ⟨h.sound, fun x hx => h.running x ?_⟩
    simp only [List.mem_append, List.mem_cons] at hx ⊢
    tauto

theorem Pool.Ok.run (hd : digestPath digest = .ok (algo, name))
    (harchive : oci.content digest = .archive archive) {p p' : Pool}
    (h : p.Ok oci (layerSite algo name archive))
    (hr : Pool.Run oci digest (layerSite algo name archive).Spares p p') :
    p'.Ok oci (layerSite algo name archive) := by
  induction hr with
  | refl => exact h
  | tail _ hs ih => exact ih.step hd harchive hs

theorem Pool.Run.trans (h : Pool.Run oci digest allowed p p') (h' : Pool.Run oci digest allowed p' p'') :
    Pool.Run oci digest allowed p p'' := by
  induction h' with
  | refl => exact h
  | tail _ hs ih => exact .tail ih hs

/-- One execution going on while the others wait. -/
theorem Pool.Run.going {c : Store × Bool} (hallowed : ∀ s s', allowed (before ++ after) s s')
    (hs : Prog.Steps (marking oci) (s, x.wrote) x.prog c p) :
    Pool.Run oci digest allowed ⟨s, before ++ x :: after⟩
      ⟨c.1, before ++ { prog := p, wrote := c.2 } :: after⟩ := by
  generalize hc₀ : (s, x.wrote) = c₀ at hs
  induction hs with
  | refl => subst hc₀; exact .refl
  | @tail c p _ _ _ hstep ih =>
    exact .tail ih (.work before after (x := { prog := p, wrote := c.2 }) hstep (hallowed _ _))

/-- In any run whose executions take nothing from the staging directory that
another running one has written there, a layer that exists is whole. -/
theorem layer_whole_when_staging_spared (hd : digestPath digest = .ok (algo, name))
    (harchive : oci.content digest = .archive archive) {s : Store} {p : Pool}
    (hs : (layerSite algo name archive).Sound s)
    (hr : Pool.Run oci digest (layerSite algo name archive).Spares ⟨s, []⟩ p) :
    (layerSite algo name archive).Sound p.store :=
  (Pool.Ok.run hd harchive ⟨hs, by simp⟩ hr).sound

-- ---------------------------------------------------------------------------
-- Two executions
-- ---------------------------------------------------------------------------

def Handler.marking (h : Handler (I := disk) (Op.effect oci)) : Handler (marking oci) where
  answer op c := (h.answer op c.1).map fun r => (r.1, r.2, c.2 || op.writes)
  sound {op c r c'} ha := by
    obtain ⟨⟨r', s'⟩, hr, heq⟩ := Option.map_eq_some_iff.mp ha
    cases heq
    exact ⟨h.sound hr, rfl⟩

namespace TwoAtOnce

def files : List TarEntry := [⟨"bin/tool", "1"⟩, ⟨"etc/tool.conf", "2"⟩]

def registry : Oci where
  content _ := .archive files
  whole := some

def digest : String := "sha256:ab"

def toolSite : Site := layerSite "sha256" "ab" files

def downloaded : Store :=
  Store.put (Store.put ∅ (.download "one") (.file (.archive files))) (.download "two")
    (.file (.archive files))

def one : Extraction := { prog := extractLayer (.download "one") digest imageLayerMediaType }

def two : Extraction := { prog := extractLayer (.download "two") digest imageLayerMediaType }

/-- So many steps of one execution. -/
def going (n : Nat) (s : Store) (x : Extraction) : (Store × Bool) × Act Unit :=
  Prog.run (Handler.marking (calm registry fun _ => none)) n ((s, x.wrote), x.prog)

def after (n : Nat) (s : Store) (x : Extraction) : Extraction :=
  { prog := (going n s x).2, wrote := (going n s x).1.2 }

theorem going_run (allowed : List Extraction → Store → Store → Prop)
    (before rest : List Extraction) (hallowed : ∀ s s', allowed (before ++ rest) s s') (n : Nat) (s : Store)
    (x : Extraction) : Pool.Run registry digest allowed ⟨s, before ++ x :: rest⟩
      ⟨(going n s x).1.1, before ++ after n s x :: rest⟩ :=
  .going hallowed (Prog.run_steps _ n _ _)

theorem started (allowed : List Extraction → Store → Store → Prop) :
    Pool.Run registry digest allowed ⟨downloaded, []⟩ ⟨downloaded, [one, two]⟩ :=
  .tail (.tail .refl (.start "one" imageLayerMediaType (by decide)))
    (.start "two" imageLayerMediaType (by decide))

theorem sound_downloaded : toolSite.Sound downloaded := by
  intro n hn
  have hnone : downloaded.lookup toolSite.dest = none := by decide
  rw [hnone] at hn
  cases hn

/-- The first has removed the staging directory, the second has as well and
made it anew, then the first goes on to the end. -/
def orderly : Store := (going 9 (going 4 (going 2 downloaded one).1.1 two).1.1 (after 2 downloaded one)).1.1

/-- Here the first has written an entry when the second starts. -/
def early : Store := (going 5 downloaded one).1.1

def disorderly : Store := (going 9 (going 4 early two).1.1 (after 5 downloaded one)).1.1

end TwoAtOnce

open TwoAtOnce in
theorem layer_whole_when_staging_spared_orderly : toolSite.Sound orderly ∧
    orderly.lookup toolSite.dest = some (.dir files.reverse) := by
  have spares : ∀ (x : Extraction) (s s' : Store), x.wrote = false → toolSite.Spares [x] s s' := by
    rintro x s s' hx ⟨y, hy, hw, -⟩
    cases List.mem_singleton.mp hy
    rw [hx] at hw
    cases hw
  have hfirst := going_run toolSite.Spares [] [two] (fun s s' => spares two s s' rfl) 2 downloaded one
  have hsecond := going_run toolSite.Spares [after 2 downloaded one] []
    (fun s s' => spares _ s s' (by rfl)) 4 (going 2 downloaded one).1.1 two
  have hthird := going_run toolSite.Spares [] [after 4 (going 2 downloaded one).1.1 two]
    (fun s s' => spares _ s s' (by rfl))
    9 (going 4 (going 2 downloaded one).1.1 two).1.1 (after 2 downloaded one)
  refine ⟨?_, by rfl⟩
  exact layer_whole_when_staging_spared (by decide) rfl sound_downloaded
    (((started _).trans hfirst).trans (hsecond.trans hthird))

open TwoAtOnce in
/-- One that starts while another is half-way through deletes what it wrote,
and the other renames the rest. -/
theorem extraction_deletes_staged : ¬ ∀ (oci : Oci) (digest algo name : String)
    (archive : List TarEntry) (s : Store) (p : Pool), digestPath digest = .ok (algo, name) →
      oci.content digest = .archive archive → (layerSite algo name archive).Sound s →
      Pool.Run oci digest (fun _ _ _ => True) ⟨s, []⟩ p →
      (layerSite algo name archive).Sound p.store := by
  intro h
  have hfirst := going_run (fun _ _ _ => True) [] [two] (fun _ _ => trivial) 5 downloaded one
  have hsecond := going_run (fun _ _ _ => True) [after 5 downloaded one] []
    (fun _ _ => trivial) 4 early two
  have hthird := going_run (fun _ _ _ => True) [] [after 4 early two]
    (fun _ _ => trivial) 9 (going 4 early two).1.1 (after 5 downloaded one)
  have hsound := h registry digest "sha256" "ab" files downloaded _ (by decide) rfl sound_downloaded
    (((started _).trans hfirst).trans (hsecond.trans hthird))
  have hdest : disorderly.lookup toolSite.dest = some (.dir [⟨"etc/tool.conf", "2"⟩]) := by rfl
  obtain ⟨t, ht, hwhole⟩ := hsound _ hdest
  cases ht
  obtain ⟨e, hmem, hpath, -⟩ := hwhole ⟨"bin/tool", "1"⟩ List.mem_cons_self
  cases List.mem_singleton.mp hmem
  exact absurd hpath (by decide)

end Climate
