import Chronology.Domain.Basic

/-!
# Registries of domains

A registry keeps the domains in the order they were registered, each layout once, and the labels
that name them. Registering a definition whose layout is already known returns the known domain,
which keeps the label it was first registered under, and adds the new label as another name for
it. A label names one layout for good: registering another layout under it is refused, before the
definition is even checked.
-/

namespace Chronology

/-- Domains in registration order, and labels with the domains they name, first label first. -/
structure Registry where
  domains : List TimeDomain := []
  labels : List (String × TimeDomain) := []

namespace Registry

/-- The domain a label names. -/
def byLabel? (r : Registry) (label : String) : Option TimeDomain :=
  r.labels.lookup label

/-- The registered domain of a layout. -/
def byLayout? (r : Registry) (l : Layout) : Option TimeDomain :=
  r.domains.find? fun d => decide (d.layout = l)

/-- The domain of a definition, registered if its layout is new, and the registry after it; its
label, if new, is added as a name of the domain. -/
def getOrInsert (r : Registry) (def_ : Definition) : Except TimeError (Registry × TimeDomain) := do
  if let some label := def_.label then
    if let some known := r.byLabel? label then
      if known.layout ≠ def_.layout then throw (.labelConflict label)
  let (r, d) ← match r.byLayout? def_.layout with
    | some d => pure (r, d)
    | none => do
      let d ← TimeDomain.make def_
      pure ({ r with domains := r.domains ++ [d] }, d)
  match def_.label with
  | some label =>
    if (r.byLabel? label).isSome then pure (r, d)
    else pure ({ r with labels := r.labels ++ [(label, d)] }, d)
  | none => pure (r, d)

/-- One registration on a registry that keeps its state: the answer, and the registry after it. A
refused definition leaves the registry as it was. -/
def register (r : Registry) (def_ : Definition) : Except TimeError TimeDomain × Registry :=
  match r.getOrInsert def_ with
  | .ok (r', d) => (.ok d, r')
  | .error e => (.error e, r)

/-- The answers of registering the definitions one after another, and the registry after the
last. -/
def run (r : Registry) : List Definition → List (Except TimeError TimeDomain) × Registry
  | [] => ([], r)
  | def_ :: rest =>
    let (answer, r') := r.register def_
    let (answers, r'') := r'.run rest
    (answer :: answers, r'')

/-- The registry of the built-in domains. -/
def withBuiltins : Registry :=
  Definition.builtins.foldl (fun r def_ => match r.getOrInsert def_ with
    | .ok (r', _) => r'
    | .error _ => r) {}

/-- The labels and the domains they name, in the byte order of the labels. -/
def sortedLabels (r : Registry) : List (String × TimeDomain) :=
  r.labels.mergeSort fun a b => !decide (b.1 < a.1)

/-- The number of distinct domains. -/
def size (r : Registry) : Nat := r.domains.length

end Registry

end Chronology
