import Chronology.Registry
import Chronology.Proofs.Except
import Mathlib.Data.Finset.Card

/-!
# Registries keep one domain per layout

A registry is used through a sequence of registrations. This module describes the registry after
any such sequence by the definitions it accepted, in the order of the calls. Each layout has one
domain, the one made for the first accepted definition of that layout, and every later definition
of the layout is answered with it; the registry holds as many domains as distinct layouts were
accepted; a label names the domain given to the first accepted definition that carried it, and
every definition accepted under that label has the layout of that domain. A registration is
refused for its label exactly when the label already names a domain of another layout, and a
refused registration changes nothing.

The description is an invariant, `Registry.Consistent`, of a registry and the list of accepted
definitions with their domains. It holds of the empty registry, an accepted registration keeps
it, and so it holds after every run. A registration is read through its three steps: the label is
checked, the domain of the layout is found or made, and a new label is added.

## Main definitions

* `Registry.accepted`: the definitions a run accepted, with the domains they were given.
* `Registry.Consistent`: the registry as the accepted definitions describe it.

## Main results

* `Registry.getOrInsert_eq_ok`, `Registry.getOrInsert_eq_error`: what a registration does.
* `Registry.consistent_getOrInsert`: an accepted registration keeps the description.
* `Registry.consistent_run`: the description holds after every run.
* `Registry.run_deduplicates`: what a run from the empty registry leaves behind.
-/

namespace Chronology

namespace TimeDomain

/-- A definition is made into a domain of that very definition. -/
theorem definition_of_make {def_ : Definition} {d : TimeDomain} (h : make def_ = .ok d) :
    d.definition = def_ := by
  unfold make at h
  split at h
  · split at h
    · cases h
      rfl
    · cases h
  · cases h
    rfl

/-- Making a domain is refused only for a pattern of another base unit. -/
theorem make_eq_error {def_ : Definition} {e : TimeError} (h : make def_ = .error e) :
    ∃ s b, e = .subdivisionMismatch s b := by
  unfold make at h
  split at h
  · split at h
    · cases h
    · cases h
      exact ⟨_, _, rfl⟩
  · cases h

end TimeDomain

namespace Registry

/-! ### The steps of a registration -/

/-- The first step: a label that names a domain of another layout refuses the definition. -/
def checkLabel (r : Registry) (def_ : Definition) : Except TimeError Unit :=
  match def_.label with
  | some label =>
    match r.byLabel? label with
    | some known => if known.layout ≠ def_.layout then .error (.labelConflict label) else .ok ()
    | none => .ok ()
  | none => .ok ()

/-- The second step: the known domain of the layout, or a new one made and put last. -/
def realize (r : Registry) (def_ : Definition) : Except TimeError (Registry × TimeDomain) :=
  match r.byLayout? def_.layout with
  | some d => .ok (r, d)
  | none => (fun d => ({ r with domains := r.domains ++ [d] }, d)) <$> TimeDomain.make def_

/-- The last step: a label that names nothing yet becomes a name of the domain. -/
def addLabel (r : Registry) (label : Option String) (d : TimeDomain) : Registry :=
  match label with
  | some l => if (r.byLabel? l).isSome then r else { r with labels := r.labels ++ [(l, d)] }
  | none => r

/-- A registration is its three steps in turn, whatever the outcome of the label's check, the search
for the layout, the making of the domain and the binding of the label. -/
theorem getOrInsert_eq (r : Registry) (def_ : Definition) :
    r.getOrInsert def_ = (r.checkLabel def_ >>= fun _ =>
      r.realize def_ >>= fun (r', d) => pure (r'.addLabel def_.label d, d)) := by
  rcases def_ with ⟨_ | label, layout⟩
  · cases hb : r.byLayout? layout <;> cases hm : TimeDomain.make { layout } <;>
      simp [getOrInsert, checkLabel, realize, addLabel, hb, hm, Functor.map, Except.map]
  · cases hb : r.byLayout? layout <;> cases hm : TimeDomain.make { label := some label, layout } <;>
      cases hk : r.byLabel? label <;>
      simp [getOrInsert, checkLabel, realize, addLabel, hb, hm, hk, Functor.map, Except.map] <;>
      split_ifs <;> rfl

/-- Whether the definition's label already names a domain of another layout. -/
def Conflicts (r : Registry) (def_ : Definition) : Prop :=
  ∃ label known, def_.label = some label ∧ r.byLabel? label = some known ∧
    known.layout ≠ def_.layout

theorem checkLabel_eq_ok {r : Registry} {def_ : Definition} :
    r.checkLabel def_ = .ok () ↔ ¬ r.Conflicts def_ := by
  unfold checkLabel Conflicts
  rcases def_ with ⟨_ | label, layout⟩
  · simp
  · cases hk : r.byLabel? label with
    | none => simp [hk]
    | some known => by_cases h : known.layout = layout <;> simp [hk, h]

theorem checkLabel_eq_error {r : Registry} {def_ : Definition} {e : TimeError} :
    r.checkLabel def_ = .error e ↔ ∃ label known, def_.label = some label ∧
      r.byLabel? label = some known ∧ known.layout ≠ def_.layout ∧ e = .labelConflict label := by
  unfold checkLabel
  rcases def_ with ⟨_ | label, layout⟩
  · simp
  · dsimp only
    cases hk : r.byLabel? label with
    | none => simp [hk]
    | some known =>
      by_cases h : known.layout = layout
      · simp [hk, h]
      · constructor
        · intro he
          simp only [ne_eq, h, not_false_eq_true, if_true, Except.error.injEq] at he
          exact ⟨label, known, rfl, hk, h, he.symm⟩
        · rintro ⟨l, k, hl, -, -, rfl⟩
          cases hl
          simp [h]

/-- The registered domain of a layout is a domain of the registry with that layout. -/
theorem byLayout?_eq_some {r : Registry} {l : Layout} {d : TimeDomain}
    (h : r.byLayout? l = some d) : d ∈ r.domains ∧ d.layout = l := by
  unfold byLayout? at h
  exact ⟨List.mem_of_find?_eq_some h, by simpa using List.find?_some h⟩

theorem byLayout?_eq_none {r : Registry} {l : Layout} :
    r.byLayout? l = none ↔ ∀ d ∈ r.domains, d.layout ≠ l := by
  simp [byLayout?]

/-- The second step gives a domain of the definition's layout: the registered one, or a new one
put last when no domain of the registry has that layout. The labels stay as they are. -/
theorem realize_eq_ok {r r' : Registry} {def_ : Definition} {d : TimeDomain}
    (h : r.realize def_ = .ok (r', d)) :
    d.layout = def_.layout ∧ r'.labels = r.labels ∧
      ((r'.domains = r.domains ∧ d ∈ r.domains) ∨
        (r'.domains = r.domains ++ [d] ∧ ∀ x ∈ r.domains, x.layout ≠ d.layout)) := by
  unfold realize at h
  cases hb : r.byLayout? def_.layout with
  | some known =>
    rw [hb] at h
    cases h
    obtain ⟨hmem, hlayout⟩ := byLayout?_eq_some hb
    exact ⟨hlayout, rfl, .inl ⟨rfl, hmem⟩⟩
  | none =>
    rw [hb] at h
    obtain ⟨made, hmade, h⟩ := map_eq_ok.1 h
    cases h
    have hlayout : d.layout = def_.layout := by
      rw [TimeDomain.layout, TimeDomain.definition_of_make hmade]
    refine ⟨hlayout, rfl, .inr ⟨rfl, fun x hx => ?_⟩⟩
    rw [hlayout]
    exact byLayout?_eq_none.1 hb x hx

/-- The second step fails only when the definition is new and cannot be made into a domain. -/
theorem realize_eq_error {r : Registry} {def_ : Definition} {e : TimeError}
    (h : r.realize def_ = .error e) : ∃ s b, e = .subdivisionMismatch s b := by
  unfold realize at h
  split at h
  · cases h
  · cases hm : TimeDomain.make def_ with
    | ok d => simp [hm, Functor.map, Except.map] at h
    | error e' =>
      simp only [hm, Functor.map, Except.map, Except.error.injEq] at h
      subst h
      exact TimeDomain.make_eq_error hm

@[simp] theorem domains_addLabel (r : Registry) (label : Option String) (d : TimeDomain) :
    (r.addLabel label d).domains = r.domains := by
  unfold addLabel
  split
  · split <;> rfl
  · rfl

/-- The last step binds the label only when it names nothing yet. A new label is bound at the end,
after every label the registry had. -/
theorem byLabel?_addLabel (r : Registry) (label : Option String) (d : TimeDomain) (l : String) :
    (r.addLabel label d).byLabel? l =
      if label = some l ∧ r.byLabel? l = none then some d else r.byLabel? l := by
  rcases label with _ | label
  · simp [addLabel]
  · by_cases hk : r.byLabel? label = none
    · have hlookup : (r.addLabel (some label) d).byLabel? l =
          (r.byLabel? l).or (if l = label then some d else none) := by
        by_cases hl : l = label
        · simp [addLabel, byLabel?, List.lookup_append, hl,
            show r.labels.lookup label = none from hk]
        · simp [addLabel, byLabel?, List.lookup_append, List.lookup_cons, hl,
            show r.labels.lookup label = none from hk, beq_eq_false_iff_ne.2 hl]
      rw [hlookup]
      by_cases hl : label = l
      · subst hl
        simp [hk]
      · simp [hl, Ne.symm hl]
    · have hsome : (r.byLabel? label).isSome := by simpa [Option.isSome_iff_ne_none] using hk
      have hkeep : r.addLabel (some label) d = r := by simp [addLabel, hsome]
      rw [hkeep]
      by_cases hl : label = l
      · subst hl
        simp [hk]
      · simp [hl]

/-! ### What a registration does -/

/-- **An accepted registration**: the label did not name a domain of another layout, the domain
was found or made, and the label was added if new. -/
theorem getOrInsert_eq_ok {r r' : Registry} {def_ : Definition} {d : TimeDomain} :
    r.getOrInsert def_ = .ok (r', d) ↔
      ¬ r.Conflicts def_ ∧ ∃ r₁, r.realize def_ = .ok (r₁, d) ∧ r' = r₁.addLabel def_.label d := by
  rw [getOrInsert_eq, bind_eq_ok]
  constructor
  · rintro ⟨⟨⟩, hcheck, h⟩
    obtain ⟨⟨r₁, d₁⟩, hreal, h⟩ := bind_eq_ok.1 h
    simp only [except_pure_eq, Except.ok.injEq, Prod.mk.injEq] at h
    obtain ⟨rfl, rfl⟩ := h
    exact ⟨checkLabel_eq_ok.1 hcheck, r₁, hreal, rfl⟩
  · rintro ⟨hno, r₁, hreal, rfl⟩
    exact ⟨(), checkLabel_eq_ok.2 hno, by rw [hreal]; rfl⟩

/-- **A refused registration**: its label names a domain of another layout, or its definition is
new and cannot be made into a domain. -/
theorem getOrInsert_eq_error {r : Registry} {def_ : Definition} {e : TimeError}
    (h : r.getOrInsert def_ = .error e) :
    (∃ label known, def_.label = some label ∧ r.byLabel? label = some known ∧
      known.layout ≠ def_.layout ∧ e = .labelConflict label) ∨
    (¬ r.Conflicts def_ ∧ ∃ s b, e = .subdivisionMismatch s b) := by
  rw [getOrInsert_eq] at h
  cases hcheck : r.checkLabel def_ with
  | error e' =>
    rw [hcheck] at h
    cases h
    exact .inl (checkLabel_eq_error.1 hcheck)
  | ok u =>
    rw [hcheck, except_ok_bind] at h
    cases hreal : r.realize def_ with
    | error e' =>
      rw [hreal] at h
      cases h
      exact .inr ⟨checkLabel_eq_ok.1 hcheck, realize_eq_error hreal⟩
    | ok p => simp [hreal] at h

/-- A registration is refused for its label exactly when the label names a domain of another
layout. -/
theorem register_labelConflict {r : Registry} {def_ : Definition} {label : String} :
    (r.register def_).1 = .error (.labelConflict label) ↔
      def_.label = some label ∧ ∃ known, r.byLabel? label = some known ∧
        known.layout ≠ def_.layout := by
  unfold register
  constructor
  · intro h
    split at h
    · cases h
    · rename_i e he
      cases h
      rcases getOrInsert_eq_error he with ⟨l, known, hl, hk, hne, heq⟩ | ⟨-, s, b, heq⟩
      · cases heq
        exact ⟨hl, known, hk, hne⟩
      · cases heq
  · rintro ⟨hl, known, hk, hne⟩
    have hcheck : r.checkLabel def_ = .error (.labelConflict label) :=
      checkLabel_eq_error.2 ⟨label, known, hl, hk, hne, rfl⟩
    rw [getOrInsert_eq, hcheck]
    rfl

/-- A refused registration leaves the registry as it was. -/
theorem register_of_error {r : Registry} {def_ : Definition} {e : TimeError}
    (h : (r.register def_).1 = .error e) : (r.register def_).2 = r := by
  unfold register at h ⊢
  split
  · rename_i r' d hok
    rw [hok] at h
    cases h
  · rfl

/-! ### The registry after a run -/

/-- The definitions that a run accepted, each with the domain it was answered with, in call
order. -/
def accepted : List Definition → List (Except TimeError TimeDomain) → List (Definition × TimeDomain)
  | def_ :: rest, .ok d :: answers => (def_, d) :: accepted rest answers
  | _ :: rest, .error _ :: answers => accepted rest answers
  | _, _ => []

/-- The registry as the accepted definitions describe it. -/
structure Consistent (r : Registry) (acc : List (Definition × TimeDomain)) : Prop where
  /-- Every accepted definition was answered with a domain of its layout, kept by the registry. -/
  answered : ∀ p ∈ acc, p.2 ∈ r.domains ∧ p.2.layout = p.1.layout
  /-- Every domain of the registry answered an accepted definition. -/
  registered : ∀ d ∈ r.domains, ∃ p ∈ acc, p.2 = d
  /-- No two domains of the registry have one layout. -/
  distinct : (r.domains.map TimeDomain.layout).Nodup
  /-- A label names the domain given to the first accepted definition that carried it. -/
  byLabel_eq : ∀ l, r.byLabel? l = (acc.find? fun p => p.1.label = some l).map Prod.snd
  /-- Every definition accepted under a label has the layout of the domain the label names. -/
  labelled : ∀ l d, r.byLabel? l = some d → ∀ p ∈ acc, p.1.label = some l → p.1.layout = d.layout

theorem consistent_empty : Consistent {} [] where
  answered := by simp
  registered := by simp
  distinct := List.nodup_nil
  byLabel_eq := by simp [byLabel?]
  labelled := by simp

/-- The labels of the description are kept by a registration that answers the definition with a
domain of its layout and adds the label if it is new. -/
theorem byLabel_eq_addLabel {r r₁ : Registry} {acc : List (Definition × TimeDomain)}
    {def_ : Definition} {d : TimeDomain} (hc : Consistent r acc) (hlabels : r₁.labels = r.labels)
    (l : String) :
    (r₁.addLabel def_.label d).byLabel? l =
      ((acc ++ [(def_, d)]).find? fun p => p.1.label = some l).map Prod.snd := by
  have hsame : r₁.byLabel? l = r.byLabel? l := by simp only [byLabel?, hlabels]
  rw [byLabel?_addLabel, hsame, hc.byLabel_eq l, List.find?_append]
  cases hfind : acc.find? fun p => p.1.label = some l with
  | some p => simp
  | none => by_cases hl : def_.label = some l <;> simp [hl]

/-- Binding a label keeps every definition under it of the layout of the domain it names: an earlier
definition found the label bound already, to the same domain, and the new one has its label name its
own domain, or one of its layout. -/
theorem labelled_addLabel {r r₁ : Registry} {acc : List (Definition × TimeDomain)}
    {def_ : Definition} {d : TimeDomain} (hc : Consistent r acc) (hlabels : r₁.labels = r.labels)
    (hno : ¬ r.Conflicts def_) (hlayout : d.layout = def_.layout) (l : String) (d₀ : TimeDomain)
    (h : (r₁.addLabel def_.label d).byLabel? l = some d₀) :
    ∀ p ∈ acc ++ [(def_, d)], p.1.label = some l → p.1.layout = d₀.layout := by
  have hsame : r₁.byLabel? l = r.byLabel? l := by simp only [byLabel?, hlabels]
  rw [byLabel?_addLabel, hsame] at h
  intro p hp hpl
  rcases List.mem_append.1 hp with hp | hp
  · split at h
    · rename_i hnew
      have hnone := hc.byLabel_eq l
      rw [hnew.2, eq_comm, Option.map_eq_none_iff, List.find?_eq_none] at hnone
      exact absurd (by simpa using hpl) (hnone p hp)
    · exact hc.labelled l d₀ h p hp hpl
  · rw [List.mem_singleton] at hp
    subst hp
    split at h
    · cases h
      exact hlayout.symm
    · refine Classical.byContradiction fun hne => hno ⟨l, d₀, hpl, h, fun heq => hne heq.symm⟩

/-- **An accepted registration keeps the description**, with the definition and its domain added
last. An answered definition leaves the domains as they were, and its domain is among them; a
registered one gets a new domain, whose layout no domain had. -/
theorem consistent_getOrInsert {r r' : Registry} {acc : List (Definition × TimeDomain)}
    {def_ : Definition} {d : TimeDomain} (hc : Consistent r acc)
    (h : r.getOrInsert def_ = .ok (r', d)) : Consistent r' (acc ++ [(def_, d)]) := by
  obtain ⟨hno, r₁, hreal, rfl⟩ := getOrInsert_eq_ok.1 h
  obtain ⟨hlayout, hlabels, hdomains⟩ := realize_eq_ok hreal
  refine ⟨fun p hp => ?_, fun x hx => ?_, ?_, byLabel_eq_addLabel hc hlabels,
    labelled_addLabel hc hlabels hno hlayout⟩
  · rw [domains_addLabel]
    rcases List.mem_append.1 hp with hp | hp
    · refine ⟨?_, (hc.answered p hp).2⟩
      rcases hdomains with ⟨hdom, -⟩ | ⟨hdom, -⟩ <;> simp [hdom, (hc.answered p hp).1]
    · rw [List.mem_singleton] at hp
      subst hp
      refine ⟨?_, hlayout⟩
      rcases hdomains with ⟨hdom, hmem⟩ | ⟨hdom, -⟩ <;> simp [*]
  · rw [domains_addLabel] at hx
    have hold : x ∈ r.domains → ∃ p ∈ acc ++ [(def_, d)], p.2 = x := fun hx' => by
      obtain ⟨p, hp, hpx⟩ := hc.registered x hx'
      exact ⟨p, List.mem_append_left _ hp, hpx⟩
    rcases hdomains with ⟨hdom, -⟩ | ⟨hdom, -⟩
    · exact hold (hdom ▸ hx)
    · rw [hdom, List.mem_append, List.mem_singleton] at hx
      rcases hx with hx | rfl
      · exact hold hx
      · exact ⟨(def_, x), by simp, rfl⟩
  · rw [domains_addLabel]
    rcases hdomains with ⟨hdom, -⟩ | ⟨hdom, hfresh⟩
    · exact hdom ▸ hc.distinct
    · rw [hdom, List.map_append, List.nodup_append]
      refine ⟨hc.distinct, List.nodup_singleton _, fun a ha b hb => ?_⟩
      obtain ⟨x, hx, rfl⟩ := List.mem_map.1 ha
      simp only [List.map_cons, List.map_nil, List.mem_singleton] at hb
      rw [hb]
      exact hfresh x hx

@[simp] theorem run_nil (r : Registry) : r.run [] = ([], r) := rfl

theorem run_cons (r : Registry) (def_ : Definition) (rest : List Definition) :
    r.run (def_ :: rest) =
      ((r.register def_).1 :: ((r.register def_).2.run rest).1, ((r.register def_).2.run rest).2) :=
  rfl

/-- **The description holds after every run**: it is kept by each accepted registration, and a
refused one changes neither the registry nor the accepted definitions. -/
theorem consistent_run {r : Registry} {acc : List (Definition × TimeDomain)}
    (hc : Consistent r acc) (calls : List Definition) :
    Consistent (r.run calls).2 (acc ++ accepted calls (r.run calls).1) := by
  induction calls generalizing r acc with
  | nil => simpa [accepted] using hc
  | cons def_ rest ih =>
    rw [run_cons]
    cases h : r.getOrInsert def_ with
    | ok p =>
      obtain ⟨r', d⟩ := p
      have hreg : r.register def_ = (.ok d, r') := by simp [register, h]
      rw [hreg]
      simpa [accepted] using ih (consistent_getOrInsert hc h)
    | error e =>
      have hreg : r.register def_ = (.error e, r) := by simp [register, h]
      rw [hreg]
      simpa [accepted] using ih hc

/-- Registering the definitions one by one and dropping the refused ones is running them. -/
theorem foldl_getOrInsert (r : Registry) (calls : List Definition) :
    calls.foldl (fun r def_ => match r.getOrInsert def_ with
      | .ok (r', _) => r'
      | .error _ => r) r = (r.run calls).2 := by
  induction calls generalizing r with
  | nil => rfl
  | cons def_ rest ih =>
    rw [List.foldl_cons, ih, run_cons]
    cases h : r.getOrInsert def_ <;> simp [register, h]

theorem run_append (r : Registry) (calls more : List Definition) :
    r.run (calls ++ more) =
      ((r.run calls).1 ++ ((r.run calls).2.run more).1, ((r.run calls).2.run more).2) := by
  induction calls generalizing r with
  | nil => rfl
  | cons def_ rest ih => simp [run_cons, ih]

/-- A run answers every call. -/
@[simp] theorem length_run (r : Registry) (calls : List Definition) :
    (r.run calls).1.length = calls.length := by
  induction calls generalizing r with
  | nil => rfl
  | cons def_ rest ih => simp [run_cons, ih]

/-- **A registry keeps one domain per layout and its labels consistent.** After a run from the empty
registry: two accepted definitions of one layout were answered with the same domain; the registry
holds as many domains as distinct layouts were accepted; a label names exactly the domain given to
the first accepted definition that carried it, and every definition accepted under it has the layout
of that domain. A registration is refused for its label exactly when the label names a domain of
another layout, and a refused one changes nothing. The built-in registry is the run of the built-in
definitions, and a run from it is the rest of a run from the empty registry that starts with them.
Two accepted definitions of one layout get domains of the registry with that layout, of which there
is one; the layouts of the domains are the distinct accepted layouts, each once. -/
theorem run_deduplicates (calls : List Definition) :
    (∀ p ∈ accepted calls (({} : Registry).run calls).1, ∀ q ∈ accepted calls
      (({} : Registry).run calls).1, p.1.layout = q.1.layout → p.2 = q.2) ∧
    (({} : Registry).run calls).2.size =
      ((accepted calls (({} : Registry).run calls).1).map fun p => p.1.layout).toFinset.card ∧
    (∀ l, (({} : Registry).run calls).2.byLabel? l =
      ((accepted calls (({} : Registry).run calls).1).find? fun p => p.1.label = some l).map
        Prod.snd) ∧
    (∀ l d, (({} : Registry).run calls).2.byLabel? l = some d →
      ∀ p ∈ accepted calls (({} : Registry).run calls).1, p.1.label = some l →
        p.1.layout = d.layout) ∧
    (∀ (r : Registry) def_ label, (r.register def_).1 = .error (.labelConflict label) ↔
      def_.label = some label ∧ ∃ known, r.byLabel? label = some known ∧
        known.layout ≠ def_.layout) ∧
    (∀ (r : Registry) def_ e, (r.register def_).1 = .error e → (r.register def_).2 = r) ∧
    withBuiltins = (({} : Registry).run Definition.builtins).2 ∧
    withBuiltins.run calls =
      (((({} : Registry).run (Definition.builtins ++ calls)).1.drop Definition.builtins.length),
        (({} : Registry).run (Definition.builtins ++ calls)).2) := by
  have hc := consistent_run consistent_empty calls
  rw [List.nil_append] at hc
  have hbuiltins : withBuiltins = (({} : Registry).run Definition.builtins).2 :=
    foldl_getOrInsert {} Definition.builtins
  refine ⟨fun p hp q hq hpq => ?_, ?_, hc.byLabel_eq, hc.labelled,
    fun _ _ _ => register_labelConflict, fun _ _ _ => register_of_error, hbuiltins, ?_⟩
  · obtain ⟨hp, hpl⟩ := hc.answered p hp
    obtain ⟨hq, hql⟩ := hc.answered q hq
    exact List.inj_on_of_nodup_map hc.distinct hp hq (by rw [hpl, hql, hpq])
  · have hsame : ((({} : Registry).run calls).2.domains.map TimeDomain.layout).toFinset =
        ((accepted calls (({} : Registry).run calls).1).map fun p => p.1.layout).toFinset := by
      ext l
      simp only [List.mem_toFinset, List.mem_map]
      constructor
      · rintro ⟨d, hd, rfl⟩
        obtain ⟨p, hp, rfl⟩ := hc.registered d hd
        exact ⟨p, hp, (hc.answered p hp).2.symm⟩
      · rintro ⟨p, hp, rfl⟩
        exact ⟨p.2, (hc.answered p hp).1, (hc.answered p hp).2⟩
    rw [size, ← hsame, List.toFinset_card_of_nodup hc.distinct, List.length_map]
  · rw [run_append, hbuiltins, List.drop_left' (length_run _ _)]

/-- One layout registered under two labels: one domain, named by both labels. -/
example : (({} : Registry).run [(Definition.ofBase .hour).withLabel "h",
    (Definition.ofBase .hour).withLabel "hours"]).2.size = 1 ∧
    ((({} : Registry).run [(Definition.ofBase .hour).withLabel "h",
      (Definition.ofBase .hour).withLabel "hours"]).2.labels.map Prod.fst) = ["h", "hours"] := by
  decide

end Registry

end Chronology
