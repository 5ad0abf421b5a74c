import KeyedText.Binding.Registry
import KeyedText.Proofs.Entries

/-!
# Converters on demand

A registry of converters keeps factories and the converters that they made apart. Over any run of
requests what is kept for a name goes by the newest registration of the name and by nothing else:
its factory makes one converter, when the name is first resolved, and this is the one that is given
out until the name is registered again. What is asked about other names makes no difference.

## Main definitions

- `ConverterRegistry.Request`, `ConverterRegistry.serve` — what is asked of a registry, and answered
- `ConverterRegistry.serveAll`, `ConverterRegistry.answers` — runs of requests
- `ConverterRegistry.runs` — how often the factory of a name made a converter
- `ConverterRegistry.Keeps` — what is kept for a name

## Main statements

- `ConverterRegistry.Keeps.serve_other` — requests about other names
- `ConverterRegistry.Keeps.serveAll_made`, `ConverterRegistry.Keeps.serveAll_fresh` — what a run
  keeps that does not register the name
- `ConverterRegistry.serveAll_newest` — the newest registration is served
-/

namespace KeyedText

namespace ConverterRegistry

/-- What is asked of a registry of converters. -/
inductive Request where
  | register (name : Text) (factory : Nat → SlotConverter)
  | resolve (name : Text)
  | contains (name : Text)
  | isCached (name : Text)

/-- What a registry answers. -/
inductive Answer where
  | registered
  | resolved (result : Except Cause SlotConverter)
  | contained (found : Bool)
  | cached (found : Bool)

/-- The name that a request is about. -/
def Request.name : Request → Text
  | register name _ => name
  | resolve name => name
  | contains name => name
  | isCached name => name

/-- Whether a request asks for the converter of a name. -/
def Request.resolves (name : Text) : Request → Bool
  | resolve own => own == name
  | _ => false

/-- The answer to a request, and the registry afterwards. -/
def serve (registry : ConverterRegistry) : Request → Answer × ConverterRegistry
  | .register name factory => (.registered, registry.register name factory)
  | .resolve name => (.resolved (registry.resolve name).1, (registry.resolve name).2)
  | .contains name => (.contained (registry.contains name), registry)
  | .isCached name => (.cached (registry.isCached name), registry)

/-- The registry after some requests. -/
def serveAll (registry : ConverterRegistry) (requests : List Request) : ConverterRegistry :=
  requests.foldl (fun registry request => (registry.serve request).2) registry

/-- Some requests with their answers. -/
def answers (registry : ConverterRegistry) : List Request → List (Request × Answer)
  | [] => []
  | request :: rest =>
    (request, (registry.serve request).1) :: answers (registry.serve request).2 rest

/-- How often a request has the factory of a name make a converter. Only requests about the name do,
and afterwards there are that many converters more. -/
def runsAt (name : Text) (registry : ConverterRegistry) (request : Request) : Nat :=
  if request.name = name then (registry.serve request).2.made - registry.made else 0

/-- How often some requests have the factory of a name make a converter. -/
def runs (name : Text) (registry : ConverterRegistry) : List Request → Nat
  | [] => 0
  | request :: rest =>
    registry.runsAt name request + runs name (registry.serve request).2 rest

/-- What a registry keeps for a name: its factory, and the converter that was made by it. -/
structure Keeps (registry : ConverterRegistry) (name : Text)
    (factory : Option (Nat → SlotConverter)) (converter : Option SlotConverter) : Prop where
  factory_eq : Entries.get? name registry.factories = factory
  converter_eq : Entries.get? name registry.instances = converter

variable {registry : ConverterRegistry} {request : Request} {requests since : List Request}
  {name : Text} {factory : Nat → SlotConverter} {factory? : Option (Nat → SlotConverter)}
  {converter : SlotConverter} {converter? : Option SlotConverter}

/-! ## Requests one by one -/

theorem keeps_empty (name : Text) : empty.Keeps name none none := ⟨rfl, rfl⟩

namespace Keeps

theorem contains_eq (h : registry.Keeps name factory? converter?) :
    registry.contains name = factory?.isSome := by
  rw [contains, h.factory_eq]

theorem isCached_eq (h : registry.Keeps name factory? converter?) :
    registry.isCached name = converter?.isSome := by
  rw [isCached, h.converter_eq]

/-- A name without a factory cannot be resolved. -/
theorem resolve_unknown (h : registry.Keeps name none none) :
    registry.resolve name = (.error (.unknownConverter name), registry) := by
  simp only [resolve, h.converter_eq, h.factory_eq]

/-- A converter that was made is given out again. -/
theorem resolve_made (h : registry.Keeps name factory? (some converter)) :
    registry.resolve name = (.ok converter, registry) := by
  simp only [resolve, h.converter_eq]

/-- The first time that a name is resolved its factory makes a converter, which is kept. -/
theorem resolve_fresh (h : registry.Keeps name (some factory) none) :
    (registry.resolve name).1 = .ok (factory registry.made) ∧
      (registry.resolve name).2.Keeps name (some factory) (some (factory registry.made)) ∧
      (registry.resolve name).2.made = registry.made + 1 := by
  have hresolve : registry.resolve name = (.ok (factory registry.made),
      { registry with
        instances := (name, factory registry.made) :: registry.instances
        made := registry.made + 1 }) := by
    simp only [resolve, h.converter_eq, h.factory_eq]
  rw [hresolve]
  exact ⟨rfl, ⟨h.factory_eq, Entries.get?_cons_self name _ _⟩, rfl⟩

end Keeps

/-- A registration takes the place of an older one, with what was made by it. -/
theorem keeps_register (registry : ConverterRegistry) (name : Text)
    (factory : Nat → SlotConverter) :
    (registry.register name factory).Keeps name (some factory) none where
  factory_eq := Entries.get?_cons_self name factory _
  converter_eq := Entries.get?_erase_self name registry.instances

/-- What is asked about one name changes nothing for another. -/
theorem Keeps.serve_other (h : registry.Keeps name factory? converter?)
    (hother : request.name ≠ name) : (registry.serve request).2.Keeps name factory? converter? := by
  cases request with
  | register other factory =>
    refine ⟨?_, ?_⟩
    · exact (Entries.get?_cons_of_ne hother _ _).trans
        ((Entries.get?_erase_of_ne hother _).trans h.factory_eq)
    · exact (Entries.get?_erase_of_ne hother _).trans h.converter_eq
  | resolve other =>
    rw [serve, resolve]
    split
    · exact h
    · split
      · exact h
      · exact ⟨h.factory_eq, (Entries.get?_cons_of_ne hother _ _).trans h.converter_eq⟩
  | contains other => exact h
  | isCached other => exact h

/-! ## Runs -/

theorem serveAll_append (registry : ConverterRegistry) (first second : List Request) :
    registry.serveAll (first ++ second) = (registry.serveAll first).serveAll second :=
  List.foldl_append

theorem serveAll_cons (registry : ConverterRegistry) (request : Request) (rest : List Request) :
    registry.serveAll (request :: rest) = (registry.serve request).2.serveAll rest :=
  rfl

theorem made_le_serve (registry : ConverterRegistry) (request : Request) :
    registry.made ≤ (registry.serve request).2.made := by
  cases request with
  | resolve name =>
    rw [serve, resolve]
    split
    · exact Nat.le_refl _
    · split
      · exact Nat.le_refl _
      · exact Nat.le_succ _
  | _ => exact Nat.le_refl _

theorem made_le_serveAll (registry : ConverterRegistry) (requests : List Request) :
    registry.made ≤ (registry.serveAll requests).made := by
  induction requests generalizing registry with
  | nil => exact Nat.le_refl _
  | cons request rest ih => exact Nat.le_trans (made_le_serve registry request) (ih _)

/-- No request registers a name. -/
def Unregistered (name : Text) (requests : List Request) : Prop :=
  ∀ factory, .register name factory ∉ requests

theorem unregistered_cons :
    Unregistered name (request :: requests) ↔
      (∀ factory, request ≠ .register name factory) ∧ Unregistered name requests := by
  simp only [Unregistered, List.mem_cons, not_or, forall_and, ne_comm (a := request), ne_eq]

/-- A name that was registered has a newest registration. -/
theorem exists_newest (h : ¬Unregistered name requests) :
    ∃ before factory since, requests = before ++ .register name factory :: since ∧
      Unregistered name since := by
  induction requests with
  | nil => exact absurd (fun factory => List.not_mem_nil) h
  | cons request rest ih =>
    by_cases hrest : Unregistered name rest
    · rw [unregistered_cons, not_and_or] at h
      obtain hrequest | hlater := h
      · obtain ⟨factory, hfactory⟩ := not_forall.1 hrequest
        exact ⟨[], factory, rest, by rw [not_not.1 hfactory]; rfl, hrest⟩
      · exact absurd hrest hlater
    · obtain ⟨before, factory, since, rfl, hsince⟩ := ih hrest
      exact ⟨request :: before, factory, since, rfl, hsince⟩

theorem Request.eq_resolve (h : request.resolves name = true) : request = .resolve name := by
  cases request with
  | resolve own => rw [beq_iff_eq.1 h]
  | _ => exact absurd h Bool.false_ne_true

theorem Request.ne_resolve (h : request.resolves name = false) : request ≠ .resolve name := by
  rintro rfl
  exact beq_eq_false_iff_ne.1 h rfl

theorem mem_of_mem_answers {answer : Answer} (h : (request, answer) ∈ registry.answers requests) :
    request ∈ requests := by
  induction requests generalizing registry with
  | nil => exact absurd h List.not_mem_nil
  | cons first rest ih =>
    obtain hsame | hlater := List.mem_cons.1 h
    · exact List.mem_cons.2 (.inl (Prod.mk.inj hsame).1)
    · exact List.mem_cons_of_mem first (ih hlater)

/-- What answers to requests that resolve a name give. -/
def Gives (name : Text) (converter : SlotConverter) (answered : List (Request × Answer)) : Prop :=
  ∀ answer, (.resolve name, answer) ∈ answered → answer = .resolved (.ok converter)

theorem gives_cons {answer : Answer} {answered : List (Request × Answer)}
    (hfirst : request = .resolve name → answer = .resolved (.ok converter))
    (hrest : Gives name converter answered) :
    Gives name converter ((request, answer) :: answered) := by
  intro other hother
  rcases List.mem_cons.1 hother with hsame | hlater
  · obtain ⟨hrequest, rfl⟩ := Prod.mk.inj hsame
    exact hfirst hrequest.symm
  · exact hrest other hlater

theorem gives_of_idle (h : since.any (Request.resolves name) = false) (registry : ConverterRegistry)
    (converter : SlotConverter) : Gives name converter (registry.answers since) := by
  intro answer hanswer
  have hidle := List.any_eq_false.1 h _ (mem_of_mem_answers hanswer)
  exact absurd (beq_self_eq_true name) hidle

namespace Keeps

/-- A request that neither registers a name nor resolves it changes nothing for it. -/
theorem serve_idle (h : registry.Keeps name factory? converter?)
    (hnew : ∀ factory, request ≠ .register name factory) (hidle : request.resolves name = false) :
    (registry.serve request).2.Keeps name factory? converter? ∧
      registry.runsAt name request = 0 := by
  by_cases hname : request.name = name
  · rw [runsAt, if_pos hname]
    cases request with
    | register other factory =>
      obtain rfl : other = name := hname
      exact absurd rfl (hnew factory)
    | resolve other => exact absurd hname (beq_eq_false_iff_ne.1 hidle)
    | contains other => exact ⟨h, Nat.sub_self _⟩
    | isCached other => exact ⟨h, Nat.sub_self _⟩
  · exact ⟨h.serve_other hname, if_neg hname⟩

/-- Until a name is registered or resolved, what is kept for it stays. -/
theorem serveAll_idle (h : registry.Keeps name factory? converter?)
    (hsince : Unregistered name since) (hidle : since.any (Request.resolves name) = false) :
    (registry.serveAll since).Keeps name factory? converter? ∧ runs name registry since = 0 := by
  induction since generalizing registry with
  | nil => exact ⟨h, rfl⟩
  | cons request rest ih =>
    obtain ⟨hrequest, hrest⟩ := unregistered_cons.1 hsince
    rw [List.any_cons, Bool.or_eq_false_iff] at hidle
    obtain ⟨hkeeps, hruns⟩ := h.serve_idle hrequest hidle.1
    rw [serveAll_cons, runs, hruns, Nat.zero_add]
    exact ih hkeeps hrest hidle.2

/-- A converter that was made is what all later requests get, and no other one is made, until the
name is registered again. -/
theorem serveAll_made (h : registry.Keeps name (some factory) (some converter))
    (hsince : Unregistered name since) :
    (registry.serveAll since).Keeps name (some factory) (some converter) ∧
      runs name registry since = 0 ∧ Gives name converter (registry.answers since) := by
  induction since generalizing registry with
  | nil => exact ⟨h, rfl, fun answer hanswer => absurd hanswer List.not_mem_nil⟩
  | cons request rest ih =>
    obtain ⟨hrequest, hrest⟩ := unregistered_cons.1 hsince
    have hstep : (registry.serve request).2.Keeps name (some factory) (some converter) ∧
        registry.runsAt name request = 0 ∧
        (request = .resolve name → (registry.serve request).1 = .resolved (.ok converter)) := by
      cases hresolve : request.resolves name with
      | true =>
        obtain rfl := Request.eq_resolve hresolve
        rw [runsAt, serve, h.resolve_made, Nat.sub_self, ite_self]
        exact ⟨h, rfl, fun _ => rfl⟩
      | false =>
        obtain ⟨hkeeps, hruns⟩ := h.serve_idle hrequest hresolve
        exact ⟨hkeeps, hruns, fun hsame => absurd hsame (Request.ne_resolve hresolve)⟩
    obtain ⟨hkeeps, hruns, hgives⟩ := ih hstep.1 hrest
    rw [serveAll_cons, runs, hstep.2.1, hruns, answers]
    exact ⟨hkeeps, rfl, gives_cons hstep.2.2 hgives⟩

/-- The first request that resolves a name after its registration has a converter made, and this is
what all of them get. -/
theorem serveAll_fresh (h : registry.Keeps name (some factory) none)
    (hsince : Unregistered name since) (hany : since.any (Request.resolves name) = true) :
    ∃ number, registry.made ≤ number ∧
      (registry.serveAll since).Keeps name (some factory) (some (factory number)) ∧
      runs name registry since = 1 ∧ Gives name (factory number) (registry.answers since) := by
  induction since generalizing registry with
  | nil => exact absurd hany Bool.false_ne_true
  | cons request rest ih =>
    obtain ⟨hrequest, hrest⟩ := unregistered_cons.1 hsince
    rw [serveAll_cons, runs, answers]
    cases hresolve : request.resolves name with
    | true =>
      obtain rfl := Request.eq_resolve hresolve
      obtain ⟨hanswer, hmade, hcount⟩ := h.resolve_fresh
      obtain ⟨hkeeps, hruns, hgives⟩ := hmade.serveAll_made hrest
      refine ⟨registry.made, Nat.le_refl _, hkeeps, ?_, gives_cons (fun _ => ?_) hgives⟩
      · have hone : registry.runsAt name (.resolve name) = 1 := by
          rw [runsAt, serve, hcount, Nat.add_sub_cancel_left]
          exact if_pos rfl
        rw [hone, serve, hruns]
      · rw [serve, hanswer]
    | false =>
      rw [List.any_cons, hresolve, Bool.false_or] at hany
      obtain ⟨hkeeps, hruns⟩ := h.serve_idle hrequest hresolve
      obtain ⟨number, hnumber, hkeeps', hruns', hgives⟩ := ih hkeeps hrest hany
      refine ⟨number, Nat.le_trans (made_le_serve registry request) hnumber, hkeeps', ?_,
        gives_cons (fun hsame => absurd hsame (Request.ne_resolve hresolve)) hgives⟩
      rw [hruns, hruns']

/-- A name that is never registered has no factory and no converter. -/
theorem serveAll_unregistered (h : registry.Keeps name none none)
    (hrequests : Unregistered name requests) :
    (registry.serveAll requests).Keeps name none none := by
  induction requests generalizing registry with
  | nil => exact h
  | cons request rest ih =>
    obtain ⟨hrequest, hrest⟩ := unregistered_cons.1 hrequests
    rw [serveAll_cons]
    refine ih ?_ hrest
    cases hresolve : request.resolves name with
    | true =>
      obtain rfl := Request.eq_resolve hresolve
      rw [serve, h.resolve_unknown]
      exact h
    | false => exact (h.serve_idle hrequest hresolve).1

end Keeps

/-! ## The newest registration -/

/-- The requests since a name was registered are served by the factory of that registration. It made
a converter if the name was resolved since, once and not before the registration, and no converter
otherwise. That one is what every request to resolve the name was given, and what the next one will
be given. -/
structure Serves (start : ConverterRegistry) (name : Text) (factory : Nat → SlotConverter)
    (since : List Request) : Prop where
  contains_eq : (start.serveAll since).contains name = true
  isCached_eq : (start.serveAll since).isCached name = since.any (Request.resolves name)
  runs_eq : runs name start since = (since.any (Request.resolves name)).toNat
  resolved : ∃ number, start.made ≤ number ∧
    ((start.serveAll since).resolve name).1 = .ok (factory number) ∧
    Gives name (factory number) (start.answers since)

theorem Keeps.serves (h : registry.Keeps name (some factory) none)
    (hsince : Unregistered name since) : registry.Serves name factory since := by
  cases hany : since.any (Request.resolves name) with
  | false =>
    obtain ⟨hkeeps, hruns⟩ := h.serveAll_idle hsince hany
    refine ⟨hkeeps.contains_eq, ?_, ?_, _, made_le_serveAll registry since,
      hkeeps.resolve_fresh.1, gives_of_idle hany registry _⟩
    · rw [hkeeps.isCached_eq, hany]
      rfl
    · rw [hruns, hany]
      rfl
  | true =>
    obtain ⟨number, hnumber, hkeeps, hruns, hgives⟩ := h.serveAll_fresh hsince hany
    refine ⟨hkeeps.contains_eq, ?_, ?_, number, hnumber, ?_, hgives⟩
    · rw [hkeeps.isCached_eq, hany]
      rfl
    · rw [hruns, hany]
      rfl
    · rw [hkeeps.resolve_made]

/-- **The newest registration of a name is the one that is served.** After any requests a name can
be resolved just when it was registered; a name that was not is neither contained nor kept.
Otherwise what was asked since the newest registration is served by its factory, whatever was asked
before. A request about one name changes nothing that is kept for another. -/
theorem serveAll_newest (requests : List Request) (name : Text) :
    let registry := empty.serveAll requests
    (∀ cause, (registry.resolve name).1 = .error cause ↔
        cause = .unknownConverter name ∧ Unregistered name requests) ∧
      (Unregistered name requests →
        registry.contains name = false ∧ registry.isCached name = false) ∧
      (∀ before factory since, requests = before ++ .register name factory :: since →
        Unregistered name since →
        registry = (empty.serveAll (before ++ [.register name factory])).serveAll since ∧
          (empty.serveAll (before ++ [.register name factory])).Serves name factory since) ∧
      ∀ request factory? converter?, request.name ≠ name →
        registry.Keeps name factory? converter? →
        (registry.serve request).2.Keeps name factory? converter? := by
  intro registry
  have hserves : ∀ before factory since, requests = before ++ .register name factory :: since →
      Unregistered name since →
      registry = (empty.serveAll (before ++ [.register name factory])).serveAll since ∧
        (empty.serveAll (before ++ [.register name factory])).Serves name factory since := by
    rintro before factory since hrequests hsince
    refine ⟨?_, ?_⟩
    · rw [← serveAll_append, List.append_assoc, List.singleton_append, ← hrequests]
    · rw [serveAll_append]
      exact (keeps_register _ name factory).serves hsince
  refine ⟨fun cause => ?_, fun hnone => ?_, hserves, fun request factory? converter? => ?_⟩
  · by_cases hnone : Unregistered name requests
    · rw [((keeps_empty name).serveAll_unregistered hnone).resolve_unknown]
      simp [hnone, eq_comm]
    · obtain ⟨before, factory, since, hrequests, hsince⟩ := exists_newest hnone
      obtain ⟨hregistry, hnewest⟩ := hserves before factory since hrequests hsince
      obtain ⟨number, -, hresolve, -⟩ := hnewest.resolved
      rw [hregistry, hresolve]
      simp [hnone]
  · have hkeeps := (keeps_empty name).serveAll_unregistered hnone
    exact ⟨hkeeps.contains_eq, hkeeps.isCached_eq⟩
  · exact fun hother hkeeps => hkeeps.serve_other hother

-- a name that is registered again has nothing kept for it, and its next converter is the third one
example (first second other : Nat → SlotConverter) :
    let registry := empty.serveAll
      [.register "a" first, .resolve "a", .register "b" other, .resolve "b", .register "a" second,
        .resolve "b"]
    registry.isCached "a" = false ∧ (registry.resolve "a").1 = .ok (second 2) :=
  ⟨rfl, rfl⟩

end ConverterRegistry

end KeyedText
