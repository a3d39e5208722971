import Chronology.Range
import Chronology.Proofs.Domain.Time

/-!
# Walking a range from both ends

A walk over a range keeps one pair of bounds, the indices not yet visited, and both ends shrink
it: a call from the front visits the front index and moves the front up, a call from the back
visits the back index and moves the back down, and a dead index is passed over by the same call.
The walk ends when the two bounds have met.

This module shows that the walk visits each live index of the range once, whatever the order of
the calls. The state of a walk stands for the live indices it has still to visit
(`Range.Walk.pending`): a call from the front returns the first of them and leaves the rest, a
call from the back returns the last of them and leaves the rest (`Range.Walk.next_spec`,
`Range.Walk.nextBack_spec`). A sequence of calls is then accounted for by one invariant
(`Range.Outcome.Accounts`): the indices returned from the front, those pending and those returned
from the back make up the live indices of the range, in order. Since the bounds only move inwards,
no index outside the range is ever computed, which is what lets the walk reach the greatest word
without overflow.

## Main definitions

* `TimeDomain.liveBetween`, `Range.liveIndices`: the live indices of an interval, in increasing
  order.
* `Range.Call`, `Range.Outcome`, `Range.calls`: a sequence of calls from either end and what it
  returned.

## Main results

* `Range.Walk.next_spec`, `Range.Walk.nextBack_spec`: what one call does.
* `Range.Outcome.accounts_calls`: the invariant holds after every sequence of calls.
* `Range.calls_visit_live_once`: each end returns live indices in order from its own side, never
  one the other end returned, and all of them once a call returns nothing.
-/

namespace Chronology

namespace TimeDomain

/-- Whether an index of the domain is live: it lies within the bounds and has a time. -/
def isLive (d : TimeDomain) (i : Int) : Bool := (d.unpack i).toBool

theorem isLive_eq_true {d : TimeDomain} {i : Int} :
    d.isLive i = true ↔ ∃ q, d.unpack i = .ok q := by
  unfold isLive
  cases d.unpack i <;> simp [Except.toBool]

/-- The domain hands out a time for an index exactly when the index is live. An index that unpacks
has a time. -/
theorem time_toBool (d : TimeDomain) (i : Int) : (d.time i).toBool = d.isLive i := by
  cases ht : d.time i with
  | ok t =>
    obtain ⟨rfl, rfl⟩ := time_eq_ok ht
    exact (isLive_eq_true.2 ⟨_, t.unpack_index⟩).symm
  | error e =>
    cases hl : d.isLive i
    · rfl
    · obtain ⟨q, hq⟩ := isLive_eq_true.1 hl
      obtain ⟨t', ht'⟩ := time_of_unpack hq
      rw [ht'] at ht
      cases ht

/-- The live indices from `front` to `back`, in increasing order. -/
def liveBetween (d : TimeDomain) (front back : Int) : List Int :=
  ((List.range (back - front + 1).toNat).map fun k : Nat => front + k).filter d.isLive

variable {d : TimeDomain}

theorem liveBetween_of_lt {front back : Int} (h : back < front) :
    d.liveBetween front back = [] := by
  simp [liveBetween, show (back - front + 1).toNat = 0 by omega]

/-- From the front: the front index, if live, then the live indices after it. -/
theorem liveBetween_front {front back : Int} (h : front ≤ back) :
    d.liveBetween front back =
      (if d.isLive front then [front] else []) ++ d.liveBetween (front + 1) back := by
  obtain ⟨n, hn⟩ : ∃ n : Nat, (back - front + 1).toNat = n + 1 := ⟨(back - front).toNat, by omega⟩
  have hn' : (back - (front + 1) + 1).toNat = n := by omega
  have hshift : (fun k : Nat => front + ((k + 1 : Nat) : Int)) = fun k : Nat => front + 1 + k := by
    funext k
    omega
  simp only [liveBetween, hn, hn', List.range_succ_eq_map, List.map_cons, List.map_map,
    Function.comp_def, Nat.succ_eq_add_one, hshift, Int.natCast_zero, Int.add_zero]
  rw [List.filter_cons]
  cases d.isLive front <;> rfl

/-- From the back: the live indices before the back index, then the back index, if live. -/
theorem liveBetween_back {front back : Int} (h : front ≤ back) :
    d.liveBetween front back =
      d.liveBetween front (back - 1) ++ (if d.isLive back then [back] else []) := by
  obtain ⟨n, hn⟩ : ∃ n : Nat, (back - front + 1).toNat = n + 1 := ⟨(back - front).toNat, by omega⟩
  have hn' : (back - 1 - front + 1).toNat = n := by omega
  have hlast : front + (n : Int) = back := by omega
  simp only [liveBetween, hn, hn', List.range_succ, List.map_append, List.map_cons, List.map_nil,
    List.filter_append, hlast]
  rw [List.filter_cons, List.filter_nil]

/-- The live indices of an interval increase strictly. -/
theorem liveBetween_sorted (front back : Int) : (d.liveBetween front back).Pairwise (· < ·) := by
  refine List.Pairwise.filter _ (List.pairwise_map.2 ?_)
  exact List.pairwise_lt_range.imp fun h => by omega

end TimeDomain

namespace Range

/-- The live indices of a range, in increasing order. -/
def liveIndices (r : Range) : List Int := r.domain.liveBetween r.first r.last

namespace Walk

/-- The live indices a walk has still to visit, in increasing order. -/
def pending (w : Walk) : List Int :=
  match w.bounds with
  | some (front, back) => w.domain.liveBetween front back
  | none => []

/-- The bounds of a walk, if any, are in order and lie from `lo` to `hi`. -/
def Inside (w : Walk) (lo hi : Int) : Prop :=
  ∀ front back, w.bounds = some (front, back) → lo ≤ front ∧ front ≤ back ∧ back ≤ hi

theorem pending_of_bounds {w : Walk} {front back : Int} (h : w.bounds = some (front, back)) :
    w.pending = w.domain.liveBetween front back := by
  simp [pending, h]

theorem pending_of_none {w : Walk} (h : w.bounds = none) : w.pending = [] := by
  simp [pending, h]

section Step

variable {lo hi : Int}

/-- The rest of a walk after the front index: the live indices after it. -/
theorem pending_after_front {d : TimeDomain} {front back : Int} :
    (⟨d, if front < back then some (front + 1, back) else none⟩ : Walk).pending =
      d.liveBetween (front + 1) back := by
  by_cases hfb : front < back
  · simp [pending, hfb]
  · simp [pending, hfb, TimeDomain.liveBetween_of_lt (show back < front + 1 by omega)]

/-- The rest of a walk after the back index: the live indices before it. -/
theorem pending_after_back {d : TimeDomain} {front back : Int} :
    (⟨d, if front < back then some (front, back - 1) else none⟩ : Walk).pending =
      d.liveBetween front (back - 1) := by
  by_cases hfb : front < back
  · simp [pending, hfb]
  · simp [pending, hfb, TimeDomain.liveBetween_of_lt (show back - 1 < front by omega)]

theorem inside_after_front {d : TimeDomain} {front back : Int}
    (h : lo ≤ front ∧ front ≤ back ∧ back ≤ hi) :
    (⟨d, if front < back then some (front + 1, back) else none⟩ : Walk).Inside lo hi := by
  intro f b hb
  by_cases hfb : front < back
  · simp only [hfb, if_true, Option.some.injEq, Prod.mk.injEq] at hb
    omega
  · simp [hfb] at hb

theorem inside_after_back {d : TimeDomain} {front back : Int}
    (h : lo ≤ front ∧ front ≤ back ∧ back ≤ hi) :
    (⟨d, if front < back then some (front, back - 1) else none⟩ : Walk).Inside lo hi := by
  intro f b hb
  by_cases hfb : front < back
  · simp only [hfb, if_true, Option.some.injEq, Prod.mk.injEq] at hb
    omega
  · simp [hfb] at hb

/-- **A call from the front returns the first pending index and leaves the rest**: dead indices at
the front are passed over, each leaving the same pending indices, the walk stays in its domain and
inside its bounds, and the time returned is the time of its index. -/
theorem next_spec (w : Walk) (hw : w.Inside lo hi) :
    w.next.2.domain = w.domain ∧ w.next.2.Inside lo hi ∧
      w.next.1.map TimeIndex.index = w.pending.head? ∧ w.next.2.pending = w.pending.tail ∧
      ∀ t ∈ w.next.1, w.domain.time t.index = .ok t := by
  fun_induction Walk.next w with
  | case1 w hb =>
    refine ⟨rfl, hw, ?_, ?_, by simp⟩ <;> simp [pending_of_none hb]
  | case2 w front back hb rest t ht =>
    obtain ⟨-, rfl⟩ := TimeDomain.time_eq_ok ht
    have hin := hw _ _ hb
    have hlive : w.domain.isLive t.index = true := by
      rw [← TimeDomain.time_toBool, ht]
      rfl
    rw [pending_of_bounds hb, TimeDomain.liveBetween_front hin.2.1, if_pos hlive]
    exact ⟨rfl, inside_after_front hin, rfl, pending_after_front, by simpa using ht⟩
  | case3 w front back hb rest e he _ ih =>
    have hin := hw _ _ hb
    have hdead : w.domain.isLive front = false := by
      rw [← TimeDomain.time_toBool, he]
      rfl
    obtain ⟨hdom, hinside, hhead, hrest, htime⟩ := ih (inside_after_front hin)
    rw [pending_of_bounds hb, TimeDomain.liveBetween_front hin.2.1, if_neg (by simp [hdead]),
      List.nil_append, ← pending_after_front]
    exact ⟨hdom, hinside, hhead, hrest, htime⟩

/-- **A call from the back returns the last pending index and leaves the rest.** -/
theorem nextBack_spec (w : Walk) (hw : w.Inside lo hi) :
    w.nextBack.2.domain = w.domain ∧ w.nextBack.2.Inside lo hi ∧
      w.nextBack.1.map TimeIndex.index = w.pending.getLast? ∧
      w.nextBack.2.pending = w.pending.dropLast ∧
      ∀ t ∈ w.nextBack.1, w.domain.time t.index = .ok t := by
  fun_induction Walk.nextBack w with
  | case1 w hb =>
    refine ⟨rfl, hw, ?_, ?_, by simp⟩ <;> simp [pending_of_none hb]
  | case2 w front back hb rest t ht =>
    obtain ⟨-, rfl⟩ := TimeDomain.time_eq_ok ht
    have hin := hw _ _ hb
    have hlive : w.domain.isLive t.index = true := by
      rw [← TimeDomain.time_toBool, ht]
      rfl
    rw [pending_of_bounds hb, TimeDomain.liveBetween_back hin.2.1, if_pos hlive]
    refine ⟨rfl, inside_after_back hin, by simp, ?_, by simpa using ht⟩
    rw [List.dropLast_concat]
    exact pending_after_back
  | case3 w front back hb rest e he _ ih =>
    have hin := hw _ _ hb
    have hdead : w.domain.isLive back = false := by
      rw [← TimeDomain.time_toBool, he]
      rfl
    obtain ⟨hdom, hinside, hlast, hrest, htime⟩ := ih (inside_after_back hin)
    rw [pending_of_bounds hb, TimeDomain.liveBetween_back hin.2.1, if_neg (by simp [hdead]),
      List.append_nil, ← pending_after_back]
    exact ⟨hdom, hinside, hlast, hrest, htime⟩

end Step

end Walk

/-! ### Sequences of calls -/

/-- A call on a walk: the next time from the front, or from the back. -/
inductive Call where
  | front
  | back
deriving DecidableEq, Repr

/-- What the calls on a walk have returned so far, and the walk they leave. -/
structure Outcome where
  /-- The times returned from the front, in the order returned. -/
  fronts : List TimeIndex
  /-- The times returned from the back, in the order returned. -/
  backs : List TimeIndex
  /-- Whether some call returned no time. -/
  exhausted : Bool
  /-- The walk after the calls. -/
  walk : Walk

namespace Outcome

/-- The outcome after one more call. -/
def step (o : Outcome) : Call → Outcome
  | .front =>
    match o.walk.next with
    | (some t, w) => { o with fronts := o.fronts ++ [t], walk := w }
    | (none, w) => { o with exhausted := true, walk := w }
  | .back =>
    match o.walk.nextBack with
    | (some t, w) => { o with backs := o.backs ++ [t], walk := w }
    | (none, w) => { o with exhausted := true, walk := w }

/-- The indices returned from the front, those pending, and those returned from the back, each in
the order they lie in the range. -/
def indices (o : Outcome) : List Int :=
  o.fronts.map TimeIndex.index ++ o.walk.pending ++ (o.backs.map TimeIndex.index).reverse

/-- **The invariant of a walk over a range**: the walk stays in the range's domain and inside its
interval; the indices returned from the front, those pending and those returned from the back are
the range's live indices; once a call returned nothing, nothing is pending; and each time returned
is the time of its index. -/
structure Accounts (r : Range) (o : Outcome) : Prop where
  domain : o.walk.domain = r.domain
  inside : o.walk.Inside r.first r.last
  indices : o.indices = r.liveIndices
  exhausted : o.exhausted = true → o.walk.pending = []
  times : ∀ t ∈ o.fronts ++ o.backs, r.domain.time t.index = .ok t

/-- Before any call, every live index of the range is pending. -/
theorem accounts_start (r : Range) : Accounts r ⟨[], [], false, r.walk⟩ := by
  refine ⟨rfl, ?_, ?_, by simp, by simp⟩
  · intro f b hb
    simp only [Range.walk, Range.isEmpty, decide_eq_true_eq] at hb
    split at hb
    · cases hb
    · simp only [Option.some.injEq, Prod.mk.injEq] at hb
      omega
  · simp only [indices, List.map_nil, List.nil_append, List.reverse_nil, List.append_nil,
      liveIndices, Range.walk, Range.isEmpty, decide_eq_true_eq]
    split
    · rename_i hempty
      rw [Walk.pending_of_none rfl, TimeDomain.liveBetween_of_lt hempty]
    · exact Walk.pending_of_bounds rfl

section Record

variable {r : Range} {o : Outcome} {w : Walk}

/-- Recording a time taken from the front, the first pending index, keeps the invariant. A walk that
found nothing before has nothing pending, so it cannot find a time now. -/
theorem accounts_front (h : Accounts r o) {t : TimeIndex} (hdom : w.domain = o.walk.domain)
    (hin : w.Inside r.first r.last) (hpend : o.walk.pending = t.index :: w.pending)
    (ht : o.walk.domain.time t.index = .ok t) :
    Accounts r { o with fronts := o.fronts ++ [t], walk := w } := by
  obtain ⟨hdom0, -, hidx, hex, htimes⟩ := h
  refine ⟨hdom.trans hdom0, hin, ?_, fun hx => ?_, fun t' ht' => ?_⟩
  · rw [← hidx]
    simp [indices, hpend]
  · have := hex hx
    rw [hpend] at this
    cases this
  · simp only [List.mem_append, List.mem_singleton] at ht'
    rcases ht' with (ht' | rfl) | ht'
    · exact htimes t' (List.mem_append_left _ ht')
    · exact hdom0 ▸ ht
    · exact htimes t' (List.mem_append_right _ ht')

/-- Recording a time taken from the back, the last pending index, keeps the invariant. -/
theorem accounts_back (h : Accounts r o) {t : TimeIndex} (hdom : w.domain = o.walk.domain)
    (hin : w.Inside r.first r.last) (hpend : o.walk.pending = w.pending ++ [t.index])
    (ht : o.walk.domain.time t.index = .ok t) :
    Accounts r { o with backs := o.backs ++ [t], walk := w } := by
  obtain ⟨hdom0, -, hidx, hex, htimes⟩ := h
  refine ⟨hdom.trans hdom0, hin, ?_, fun hx => ?_, fun t' ht' => ?_⟩
  · rw [← hidx]
    simp [indices, hpend]
  · have := hex hx
    rw [hpend] at this
    simp at this
  · simp only [List.mem_append, List.mem_singleton] at ht'
    rcases ht' with ht' | ht' | rfl
    · exact htimes t' (List.mem_append_left _ ht')
    · exact htimes t' (List.mem_append_right _ ht')
    · exact hdom0 ▸ ht

/-- Recording a call that found nothing, when nothing was pending, keeps the invariant. -/
theorem accounts_exhausted (h : Accounts r o) (hdom : w.domain = o.walk.domain)
    (hin : w.Inside r.first r.last) (hnil : o.walk.pending = []) (hw : w.pending = []) :
    Accounts r { o with exhausted := true, walk := w } := by
  obtain ⟨hdom0, -, hidx, -, htimes⟩ := h
  refine ⟨hdom.trans hdom0, hin, ?_, fun _ => hw, htimes⟩
  rw [← hidx]
  simp [indices, hw, hnil]

/-- **One call keeps the invariant.** The time returned is that of the first pending index from the
front, and of the last from the back. -/
theorem accounts_step (h : Accounts r o) (c : Call) : Accounts r (o.step c) := by
  cases c with
  | front =>
    obtain ⟨hdom, hin, hhead, hrest, htime⟩ := Walk.next_spec o.walk h.inside
    simp only [step]
    split
    · rename_i t w hn
      rw [hn] at hdom hin hhead hrest htime
      simp only [Option.map_some] at hhead
      refine accounts_front h hdom hin ?_ (htime t rfl)
      rw [hrest]
      exact List.eq_cons_of_mem_head? hhead.symm
    · rename_i w hn
      rw [hn] at hdom hin hhead hrest
      simp only [Option.map_none] at hhead
      have hnil : o.walk.pending = [] := List.head?_eq_none_iff.1 hhead.symm
      exact accounts_exhausted h hdom hin hnil (by rw [hrest, hnil]; rfl)
  | back =>
    obtain ⟨hdom, hin, hlast, hrest, htime⟩ := Walk.nextBack_spec o.walk h.inside
    simp only [step]
    split
    · rename_i t w hn
      rw [hn] at hdom hin hlast hrest htime
      simp only [Option.map_some] at hlast
      refine accounts_back h hdom hin ?_ (htime t rfl)
      rw [hrest]
      exact (List.dropLast_append_getLast? _ hlast.symm).symm
    · rename_i w hn
      rw [hn] at hdom hin hlast hrest
      simp only [Option.map_none] at hlast
      have hnil : o.walk.pending = [] := List.getLast?_eq_none_iff.1 hlast.symm
      exact accounts_exhausted h hdom hin hnil (by rw [hrest, hnil]; rfl)

end Record

end Outcome

/-- The outcome of a sequence of calls on the walk over a range, made in order. -/
def calls (r : Range) (cs : List Call) : Outcome :=
  cs.foldl Outcome.step ⟨[], [], false, r.walk⟩

namespace Outcome

/-- **Every sequence of calls keeps the invariant**, by induction on the calls made from the start,
each a step of `accounts_step`. -/
theorem accounts_calls (r : Range) (cs : List Call) : Accounts r (r.calls cs) := by
  suffices h : ∀ o, Accounts r o → Accounts r (cs.foldl step o) from h _ (accounts_start r)
  induction cs with
  | nil => exact fun o h => h
  | cons c cs ih => exact fun o h => ih _ (accounts_step h c)

end Outcome

/-- The first time of a range is the time of its least live index. -/
theorem firstTime?_index (r : Range) :
    r.firstTime?.map TimeIndex.index = r.liveIndices.head? := by
  have hidx := (Outcome.accounts_start r).indices
  simp only [Outcome.indices, List.map_nil, List.nil_append, List.reverse_nil,
    List.append_nil] at hidx
  rw [firstTime?, (Walk.next_spec r.walk (Outcome.accounts_start r).inside).2.2.1, hidx]

/-- The last time of a range is the time of its greatest live index. -/
theorem lastTime?_index (r : Range) :
    r.lastTime?.map TimeIndex.index = r.liveIndices.getLast? := by
  have hidx := (Outcome.accounts_start r).indices
  simp only [Outcome.indices, List.map_nil, List.nil_append, List.reverse_nil,
    List.append_nil] at hidx
  rw [lastTime?, (Walk.nextBack_spec r.walk (Outcome.accounts_start r).inside).2.2.1, hidx]

/-- **Walking a range visits each live index once, from either end.** For every sequence of calls
from the front and from the back: the front has returned the least live indices of the range in
increasing order and the back the greatest in decreasing order, never an index that the other end
returned; once a call has returned nothing, every live index has been returned by one end or the
other. Each time returned is the time of its index, the walk never leaves the interval of the range,
and the first and last times of the range are those of its least and greatest live indices. The
front returns are a prefix of the live indices and the back returns, reversed, a suffix; the live
indices are distinct, and each end took its own part of them. -/
theorem calls_visit_live_once (r : Range) (cs : List Call) :
    r.liveIndices.Pairwise (· < ·) ∧
    (r.calls cs).fronts.map TimeIndex.index = r.liveIndices.take (r.calls cs).fronts.length ∧
    (r.calls cs).backs.map TimeIndex.index =
      r.liveIndices.reverse.take (r.calls cs).backs.length ∧
    (∀ t ∈ (r.calls cs).fronts, ∀ t' ∈ (r.calls cs).backs, t.index ≠ t'.index) ∧
    ((r.calls cs).exhausted = true →
      (r.calls cs).fronts.map TimeIndex.index ++ ((r.calls cs).backs.map TimeIndex.index).reverse =
        r.liveIndices) ∧
    (∀ t ∈ (r.calls cs).fronts ++ (r.calls cs).backs, r.domain.time t.index = .ok t) ∧
    (r.calls cs).walk.Inside r.first r.last ∧
    r.firstTime?.map TimeIndex.index = r.liveIndices.head? ∧
    r.lastTime?.map TimeIndex.index = r.liveIndices.getLast? := by
  obtain ⟨-, hin, hidx, hex, htimes⟩ := Outcome.accounts_calls r cs
  have hsorted := TimeDomain.liveBetween_sorted (d := r.domain) r.first r.last
  set o := r.calls cs
  set fs := o.fronts.map TimeIndex.index
  set bs := o.backs.map TimeIndex.index
  have hsplit : fs ++ (o.walk.pending ++ bs.reverse) = r.liveIndices := by
    rw [← List.append_assoc]
    exact hidx
  refine ⟨hsorted, ?_, ?_, ?_, ?_, htimes, hin, firstTime?_index r, lastTime?_index r⟩
  · rw [← hsplit, List.take_left' (by simp [fs])]
  · rw [← hsplit, List.reverse_append, List.reverse_append, List.reverse_reverse,
      List.append_assoc, List.take_left' (by simp [bs])]
  · intro t ht t' ht' heq
    have hnodup : (fs ++ (o.walk.pending ++ bs.reverse)).Nodup := by
      rw [hsplit]
      exact hsorted.imp fun h => Int.ne_of_lt h
    have hdisj := (List.nodup_append.1 hnodup).2.2
    exact hdisj t.index (List.mem_map_of_mem ht) t'.index
      (List.mem_append_right _ (List.mem_reverse.2 (List.mem_map_of_mem ht'))) heq
  · intro hx
    rw [← hsplit, hex hx, List.nil_append]

end Range

end Chronology
