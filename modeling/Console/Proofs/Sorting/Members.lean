import Console.Sorting
import Mathlib.Tactic.Common

/-!
# What a sort returns

Whatever the test says, and whether or not it is an order, a sort returns items that it was given. What
holds of all items holds of all that the steps of the sort make of them.
-/

namespace Console.Sorting

variable {ε α β γ : Type}

/-- What comes out, if anything does, has the property. -/
def Yields (Q : β → Prop) (r : Except ε β) : Prop := ∀ b, r = .ok b → Q b

namespace Yields

variable {Q : β → Prop} {Q' : γ → Prop} {r : Except ε β} {f : β → Except ε γ}

theorem ok {b : β} (value : Q b) : Yields Q (.ok b : Except ε β) := fun _ same => by
  cases same
  exact value

theorem pure {b : β} (value : Q b) : Yields Q (Pure.pure b : Except ε β) := ok value

theorem bind (first : Yields Q r) (next : ∀ b, Q b → Yields Q' (f b)) : Yields Q' (r >>= f) := by
  cases r with
  | error e => exact nofun
  | ok b => exact next b (first b rfl)

theorem bind_any (next : ∀ b, Yields Q' (f b)) : Yields Q' (r >>= f) :=
  bind (Q := fun _ => True) (fun _ _ => trivial) fun b _ => next b

/-- Two ways to the same rest. -/
theorem ite_bind {c : Prop} [Decidable c] {r' : Except ε β} (first : Yields Q r)
    (second : Yields Q r') (next : ∀ b, Q b → Yields Q' (f b)) :
    Yields Q' (if c then r >>= f else r' >>= f) := by
  split
  · exact first.bind next
  · exact second.bind next

theorem foldlM {f : β → γ → Except ε β} {b : β} {cs : List γ} (start : Q b)
    (each : ∀ c ∈ cs, ∀ b, Q b → Yields Q (f b c)) : Yields Q (cs.foldlM f b) := by
  induction cs generalizing b with
  | nil => exact pure start
  | cons c cs ih =>
    obtain ⟨first, others⟩ := List.forall_mem_cons.1 each
    exact (first b start).bind fun b now => ih now others

end Yields

variable {P : α → Prop} {before : α → α → Except ε Bool} {items left right : List α}

/-- All items have the property. -/
abbrev All (P : α → Prop) (items : List α) : Prop := ∀ x ∈ items, P x

section

variable {x y : α}

theorem All.cons (first : P x) (others : All P items) : All P (x :: items) :=
  List.forall_mem_cons.2 ⟨first, others⟩

theorem All.append (first : All P left) (second : All P right) : All P (left ++ right) :=
  List.forall_mem_append.2 ⟨first, second⟩

theorem All.reverse (all : All P items) : All P items.reverse := fun x mem =>
  all x (List.mem_reverse.1 mem)

theorem All.take (all : All P items) (n : Nat) : All P (items.take n) := fun x mem =>
  all x (List.mem_of_mem_take mem)

theorem All.drop (all : All P items) (n : Nat) : All P (items.drop n) := fun x mem =>
  all x (List.mem_of_mem_drop mem)

end

theorem insertFromEnd_all {x : α} (first : P x) (all : All P items) :
    Yields (All P) (insertFromEnd before x items) := by
  induction items with
  | nil => exact .ok (.cons first all)
  | cons y rest ih =>
    obtain ⟨head, tail⟩ := List.forall_mem_cons.1 all
    rw [insertFromEnd]
    refine .bind_any fun goes => ?_
    split
    · exact (ih tail).bind fun out inside => .pure (.cons head inside)
    · exact .pure (.cons first all)

theorem insertAll_all (all : All P left) (all' : All P right) :
    Yields (All P) (insertAll before left right) :=
  .foldlM all fun x mem _ inside => insertFromEnd_all (all' x mem) inside

theorem byInsertion_all (all : All P items) : Yields (All P) (byInsertion before items) :=
  (insertAll_all (List.forall_mem_nil _) all).bind fun _ inside => .pure inside.reverse

theorem mergeForward_all {done : List α} (all : All P done) (all' : All P left)
    (all'' : All P right) : Yields (All P) (mergeForward before done left right) := by
  fun_induction mergeForward before done left right with
  | case1 done right => exact .ok (all.reverse.append all'')
  | case2 done left => exact .ok (all.reverse.append all')
  | case3 done x left y right ih ih' =>
    obtain ⟨first, others⟩ := List.forall_mem_cons.1 all'
    obtain ⟨first', others'⟩ := List.forall_mem_cons.1 all''
    refine .bind_any fun goes => ?_
    split
    · exact ih (all.cons first') all' others'
    · exact ih' (all.cons first) others all''

theorem mergeBackward_all {done : List α} (all : All P done) (all' : All P left)
    (all'' : All P right) : Yields (All P) (mergeBackward before done left right) := by
  fun_induction mergeBackward before done left right with
  | case1 done right => exact .ok (all''.reverse.append all)
  | case2 done left => exact .ok (all'.reverse.append all)
  | case3 done x left y right ih ih' =>
    obtain ⟨first, others⟩ := List.forall_mem_cons.1 all'
    obtain ⟨first', others'⟩ := List.forall_mem_cons.1 all''
    refine .bind_any fun goes => ?_
    split
    · exact ih (all.cons first) others all''
    · exact ih' (all.cons first') all' others'

theorem merge_all (all : All P left) (all' : All P right) :
    Yields (All P) (merge before left right) := by
  unfold merge
  split
  · exact mergeForward_all (List.forall_mem_nil _) all all'
  · exact mergeBackward_all (List.forall_mem_nil _) all.reverse all'.reverse

theorem inOrder_all {x y : α} (first : P x) (second : P y) :
    Yields (fun p => P p.1 ∧ P p.2) (inOrder before x y) := by
  refine .bind_any fun goes => .pure ?_
  split
  · exact ⟨second, first⟩
  · exact ⟨first, second⟩

theorem sortFour_all {p q r s : α} (all : All P [p, q, r, s]) :
    Yields (All P) (sortFour before p q r s) := by
  simp only [All, List.forall_mem_cons] at all
  obtain ⟨one, two, three, four, -⟩ := all
  unfold sortFour
  refine (inOrder_all one two).bind fun ab inab => (inOrder_all three four).bind fun cd incd => ?_
  refine .bind_any fun first => .bind_any fun second => ?_
  have parts {least greatest second third : α} (ends : P least ∧ P greatest)
      (inner : P second ∧ P third) : Yields (All P)
        (inOrder before second third >>= fun p => Pure.pure [least, p.1, p.2, greatest]) := by
    refine (inOrder_all inner.1 inner.2).bind fun p inside => .pure ?_
    simp [All, ends, inside]
  cases first <;> cases second
  · exact parts ⟨inab.1, incd.2⟩ ⟨inab.2, incd.1⟩
  · exact parts inab incd
  · exact parts incd inab
  · exact parts ⟨incd.1, inab.2⟩ ⟨inab.1, incd.2⟩

theorem startWithFour_all (all : All P items) :
    Yields (fun p => All P p.1 ∧ All P p.2) (startWithFour before items) := by
  unfold startWithFour
  split
  · next p q r s rest =>
    have front : All P [p, q, r, s] := fun x mem => all x (by simp at mem ⊢; tauto)
    have behind : All P rest := fun x mem => all x (by simp [mem])
    exact (sortFour_all front).bind fun out inside => .pure ⟨inside.reverse, behind⟩
  · exact .ok ⟨List.forall_mem_nil _, all⟩

/-- All items of two halves that are being merged have the property. -/
structure Ends.AllIn (P : α → Prop) (e : Ends α) : Prop where
  left : All P e.left
  right : All P e.right
  leftBack : All P e.leftBack
  rightBack : All P e.rightBack
  front : All P e.front
  back : All P e.back

namespace Ends

variable {e : Ends α}

theorem takeFirst_all (all : e.AllIn P) : Yields (AllIn P) (e.takeFirst before) := by
  unfold takeFirst
  split
  · next x left y right found found' =>
    have inLeft := found ▸ all.left
    have inRight := found' ▸ all.right
    refine .bind_any fun goes => ?_
    split
    · exact .pure { all with
        right := (List.forall_mem_cons.1 inRight).2
        front := all.front.cons (List.forall_mem_cons.1 inRight).1 }
    · exact .pure { all with
        left := (List.forall_mem_cons.1 inLeft).2
        front := all.front.cons (List.forall_mem_cons.1 inLeft).1 }
  · exact .ok all

theorem takeLast_all (all : e.AllIn P) : Yields (AllIn P) (e.takeLast before) := by
  unfold takeLast
  split
  · next x left y right found found' =>
    have inLeft := found ▸ all.leftBack
    have inRight := found' ▸ all.rightBack
    refine .bind_any fun goes => ?_
    split
    · exact .pure { all with
        leftBack := (List.forall_mem_cons.1 inLeft).2
        back := all.back.cons (List.forall_mem_cons.1 inLeft).1 }
    · exact .pure { all with
        rightBack := (List.forall_mem_cons.1 inRight).2
        back := all.back.cons (List.forall_mem_cons.1 inRight).1 }
  · exact .ok all

theorem takeBoth_all (n : Nat) (all : e.AllIn P) : Yields (AllIn P) (takeBoth before n e) := by
  induction n generalizing e with
  | zero => exact .ok all
  | succ n ih =>
    exact (takeFirst_all all).bind fun e' all => (takeLast_all all).bind fun e'' all => ih all

end Ends

theorem mergeHalves_all (all : All P left) (all' : All P right) :
    Yields (All P) (mergeHalves before left right) := by
  have start : Ends.AllIn P ⟨left.reverse, right.reverse, left, right, [], []⟩ :=
    ⟨all.reverse, all'.reverse, all, all', List.forall_mem_nil _, List.forall_mem_nil _⟩
  refine (Ends.takeBoth_all _ start).bind fun e ends => ?_
  dsimp only
  split
  · exact .pure (all.reverse.append all'.reverse)
  · exact .pure (((ends.front.reverse.append ((ends.left.take _).append (ends.right.take _)))).append
      ends.back)

theorem sortShort_all (all : All P items) : Yields (All P) (sortShort before items) := by
  have start (half : List α) (all : All P half) : Yields (fun p => All P p.1 ∧ All P p.2)
      ((if items.length < 8 then fun half => .ok ([], half) else startWithFour before) half) := by
    split
    · exact .ok ⟨List.forall_mem_nil _, all⟩
    · exact startWithFour_all all
  unfold sortShort
  split
  · exact .pure all
  · refine (start _ (all.take _)).bind fun p inLeft => (start _ (all.drop _)).bind fun q inRight => ?_
    refine (insertAll_all inLeft.1 inLeft.2).bind fun left all => ?_
    exact (insertAll_all inRight.1 inRight.2).bind fun right all' => mergeHalves_all all all'

section

variable {deferral : Option (Deferral ε α)}
  (keeps : ∀ d ∈ deferral, ∀ items, All P items → Yields (All P) (d.sort items))

theorem followRun_all {down : Bool} {last : α} {done : List α} (all : All P done)
    (all' : All P items) : Yields (All P) (followRun before down last done items) := by
  induction items generalizing last done with
  | nil => exact .ok all
  | cons x rest ih =>
    obtain ⟨first, others⟩ := List.forall_mem_cons.1 all'
    rw [followRun]
    refine .bind_any fun goes => ?_
    split
    · exact ih (all.cons first) others
    · exact .pure all

theorem firstRun_all (all : All P items) : Yields (All P) (firstRun before items) := by
  unfold firstRun
  split
  · next x y rest =>
    obtain ⟨first, others⟩ := List.forall_mem_cons.1 all
    obtain ⟨second, others⟩ := List.forall_mem_cons.1 others
    have start : All P [y, x] := .cons second (.cons first (List.forall_mem_nil _))
    refine .bind_any fun down => (followRun_all start others).bind fun found inside => .pure ?_
    split
    · exact inside
    · exact inside.reverse
  · exact .ok all

include keeps

theorem Run.settle_all {run : Run α} (all : All P run.items) :
    Yields (All P) (run.settle deferral) := by
  unfold Run.settle
  split
  · next d =>
    split
    · exact .ok all
    · exact keeps d rfl _ all
  · exact .ok all

theorem Run.join_all {first second : Run α} (all : All P first.items) (all' : All P second.items) :
    Yields (fun run => All P run.items) (Run.join before deferral first second) := by
  unfold Run.join
  dsimp only
  split
  · exact .pure (all.append all')
  · refine (settle_all keeps all).bind fun left inLeft => ?_
    refine (settle_all keeps all').bind fun right inRight => ?_
    exact (merge_all inLeft inRight).bind fun out inside => .pure inside

omit keeps in
theorem nextRun_all (good : Nat) (all : All P items) :
    Yields (fun run => All P run.items) (nextRun before deferral good items) := by
  refine .ite_bind (.ok (List.forall_mem_nil _)) (firstRun_all all) fun found inside => ?_
  dsimp only
  split
  · exact .pure inside
  · split
    · exact .pure (all.take _)
    · exact (sortShort_all (all.take _)).bind fun out inside => .pure inside

theorem joinUpTo_all (height : Nat) {run : Run α} {waiting : List (Waiting α)}
    (all : All P run.items) (all' : ∀ w ∈ waiting, All P w.run.items) :
    Yields (fun p => All P p.1.items ∧ ∀ w ∈ p.2, All P w.run.items)
      (joinUpTo (Run.join before deferral) height run waiting) := by
  induction waiting generalizing run with
  | nil => exact .ok ⟨all, all'⟩
  | cons last waiting ih =>
    obtain ⟨first, others⟩ := List.forall_mem_cons.1 all'
    rw [joinUpTo]
    split
    · exact (Run.join_all keeps first all).bind fun joined inside => ih inside others
    · exact .pure ⟨all, all'⟩

theorem joinRuns_all (good count : Nat) {waiting : List (Waiting α)} {run : Run α} (start : Nat)
    (all : All P run.items) (all' : ∀ w ∈ waiting, All P w.run.items) (all'' : All P items) :
    Yields (fun run => All P run.items) (joinRuns (nextRun before deferral good)
      (Run.join before deferral) count waiting run start items) := by
  induction length : items.length using Nat.strongRecOn generalizing items waiting run start with
  | ind n ih =>
    cases items with
    | nil =>
      rw [joinRuns]
      exact .foldlM all fun last mem run inside => Run.join_all keeps (all' last mem) inside
    | cons x rest =>
      rw [joinRuns]
      refine (nextRun_all good all'').bind fun following inside => ?_
      refine (joinUpTo_all keeps _ all all').bind fun joined inJoined => ?_
      refine ih _ ?_ _ inside (List.forall_mem_cons.2 inJoined)
        (All.drop (List.forall_mem_cons.1 all'').2 _) rfl
      rw [← length, List.length_drop, List.length_cons]
      omega

theorem byRuns_all (all : All P items) : Yields (All P) (byRuns before deferral items) := by
  refine (nextRun_all _ all).bind fun first inside => ?_
  refine (joinRuns_all keeps _ _ _ inside (List.forall_mem_nil _) (all.drop _)).bind ?_
  exact fun whole inside => Run.settle_all keeps inside

end

theorem Pivoted.choose?_all (all : All P items) :
    Yields (fun found => ∀ p ∈ found, All P p.front ∧ P p.pivot ∧ All P p.behind)
      (Pivoted.choose? before items) := by
  refine .bind_any fun position => ?_
  split
  · next pivot behind found =>
    have inside : All P (pivot :: behind) := found ▸ all.drop position
    refine .pure fun p same => ?_
    cases same
    exact ⟨all.take _, List.forall_mem_cons.1 inside⟩
  · exact .pure nofun

theorem Parts.add_all {test : α → Except ε Bool} {parts : Parts α} (all : All P parts.left)
    (all' : All P parts.right) (all'' : All P items) :
    Yields (fun parts => All P parts.left ∧ All P parts.right) (Parts.add test parts items) := by
  refine .foldlM ⟨all, all'⟩ fun x mem parts inside => .bind_any fun goes => .pure ?_
  split
  · exact ⟨inside.1.cons (all'' x mem), inside.2⟩
  · exact ⟨inside.1, inside.2.cons (all'' x mem)⟩

section

variable {p : Pivoted α} (front : All P p.front) (pivot : P p.pivot) (behind : All P p.behind)
include front pivot behind

theorem Pivoted.below_all :
    Yields (fun parts => All P parts.1 ∧ All P parts.2) (p.below before) := by
  refine (Parts.add_all (List.forall_mem_nil _) (List.forall_mem_nil _) front).bind ?_
  intro parts inside
  refine .bind (Parts.add_all inside.1 ?_ behind) fun parts inside => ?_
  · exact All.cons pivot inside.2
  · exact .pure ⟨inside.1.reverse, inside.2.reverse⟩

theorem Pivoted.notAbove_all :
    Yields (fun parts => All P parts.1 ∧ All P parts.2) (p.notAbove before) := by
  refine (Parts.add_all (List.forall_mem_nil _) (List.forall_mem_nil _) front).bind ?_
  intro parts inside
  refine .bind (Parts.add_all ?_ inside.2 behind) fun parts inside => ?_
  · exact All.cons pivot inside.1
  · exact .pure ⟨inside.1.reverse, inside.2.reverse⟩

end

theorem byPivots_all (limit : Nat) (floor : Option α) (all : All P items) :
    Yields (All P) (byPivots before limit floor items) := by
  induction limit generalizing floor items with
  | zero =>
    rw [byPivots]
    split
    · exact sortShort_all all
    · exact byRuns_all nofun all
  | succ limit ih =>
    rw [byPivots]
    split
    · exact sortShort_all all
    refine (Pivoted.choose?_all all).bind fun found inside => ?_
    split
    · next p =>
      obtain ⟨front, pivot, behind⟩ := inside p rfl
      cases floor <;> refine .bind_any fun least => ?_
      all_goals
        refine .ite_bind (.ok ⟨List.forall_mem_nil _, all⟩) (Pivoted.below_all front pivot behind) ?_
        intro parts inParts
        dsimp only
        split
        · refine (Pivoted.notAbove_all front pivot behind).bind fun parts inParts => ?_
          exact (ih none inParts.2).bind fun out inside => .pure (inParts.1.append inside)
        · refine (ih _ inParts.2).bind fun others inOthers => ?_
          exact (ih _ inParts.1).bind fun below inBelow => .pure (inBelow.append inOthers)
    · exact .pure all

/-- Whatever the items have in common, those that a sort returns have it too. -/
theorem sort_all (all : All P items) : Yields (All P) (sort before items) := by
  unfold sort
  dsimp only
  split
  · exact byInsertion_all all
  · split
    · exact byRuns_all nofun all
    · refine byRuns_all (fun d same items all => ?_) all
      cases same
      exact byPivots_all _ _ all

end Console.Sorting
