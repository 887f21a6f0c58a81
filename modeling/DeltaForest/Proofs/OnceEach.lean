import DeltaForest.Proofs.Replication
import Mathlib.Data.List.Chain

/-!
# Each event once

A follower that knows which number has to come next makes an event only if it has that number, and
waits for the number behind it from then on. So the numbers of the events that are made go up one by
one, whatever comes and whatever else is done at the site in between, and an event that is not made
changes nothing (`Follower.Receives.onceEach`).

There is one exception. Behind the highest number of 64 bits there is none, and the follower goes on
waiting for that number itself: an event that has it is made as often as it comes
(`Examples.exists_repeated`). All other numbers are made once at most, and nothing is wrong with a
run in which the highest number is not made twice.
-/

namespace DeltaForest

open Protocol

/-! ## The number behind another one -/

namespace Tracker

/-- The highest number, behind which there is none. -/
def last : UInt64 := .ofNat (UInt64.size - 1)

variable {n n' : UInt64}

theorem after_last : after last = last := rfl

theorem toNat_after (h : n ≠ last) : (after n).toNat = n.toNat + 1 := by
  have hne : n.toNat ≠ UInt64.size - 1 := fun heq => h (UInt64.toNat_inj.1 heq)
  have hlt := n.toNat_lt
  have hnext : (n + 1).toNat = n.toNat + 1 := by
    rw [UInt64.toNat_add]
    exact Nat.mod_eq_of_lt (by simp only [UInt64.size] at hne; simp; omega)
  have hpos : n + 1 ≠ 0 := fun hzero => by simp [hzero] at hnext
  rw [after, if_neg hpos, hnext]

/-- A number is higher than another one, or both are the highest. -/
def Behind (n n' : UInt64) : Prop := n.toNat < n'.toNat ∨ (n = last ∧ n' = last)

theorem behind_after (n : UInt64) : Behind n (after n) := by
  by_cases h : n = last
  · exact .inr ⟨h, h ▸ after_last⟩
  · exact .inl (by rw [toNat_after h]; exact Nat.lt_succ_self _)

instance : Trans Behind Behind Behind where
  trans := by
    rintro n n' n'' (h | ⟨h, h'⟩) (h₁ | ⟨h₁, h₁'⟩)
    · exact .inl (Nat.lt_trans h h₁)
    · exact .inl (by rwa [h₁', ← h₁])
    · exact .inl (by rwa [h, ← h'])
    · exact .inr ⟨h, h₁'⟩

end Tracker

/-! ## Numbers one behind the other -/

/-- Each of some numbers is the one behind the number before it. -/
def Successive (numbers : List UInt64) : Prop :=
  numbers.IsChain fun n n' => n' = Tracker.after n

namespace Successive

variable {numbers : List UInt64}

theorem behind (h : Successive numbers) : numbers.Pairwise Tracker.Behind := by
  rw [← List.isChain_iff_pairwise]
  refine h.imp fun n n' heq => ?_
  rw [heq]
  exact Tracker.behind_after n

/-- A number that is not the highest occurs once at most. -/
theorem count_le_one (h : Successive numbers) {n : UInt64} (hn : n ≠ Tracker.last) :
    numbers.count n ≤ 1 := by
  have hb := h.behind
  clear h
  induction hb with
  | nil => exact Nat.zero_le _
  | @cons n' rest hfirst _ ih =>
    rw [List.count_cons]
    split
    · next heq =>
      obtain rfl : n' = n := by simpa using heq
      -- Behind a number come higher ones only, apart from the last of all.
      have hnot : n' ∉ rest := fun hmem => by
        rcases hfirst n' hmem with hlt | ⟨hlast, -⟩
        · exact Nat.lt_irrefl _ hlt
        · exact hn hlast
      exact Nat.le_of_eq (congrArg (· + 1) (List.count_eq_zero_of_not_mem hnot))
    · exact ih

/-- If the highest number occurs once at most, all numbers do. -/
theorem nodup_iff (h : Successive numbers) :
    numbers.Nodup ↔ numbers.count Tracker.last ≤ 1 := by
  rw [List.nodup_iff_count_le_one]
  refine ⟨fun hall => hall _, fun hlast n => ?_⟩
  by_cases hn : n = Tracker.last
  · exact hn ▸ hlast
  · exact h.count_le_one hn

/-- Numbers without repetition go up one by one. -/
theorem oneByOne_iff (h : Successive numbers) :
    (numbers.IsChain fun n n' => n'.toNat = n.toNat + 1) ↔ numbers.Nodup := by
  induction numbers with
  | nil => simp
  | cons n numbers ih =>
    have hrest : Successive numbers := (List.isChain_cons.1 h).2
    have hb := h.behind
    rw [List.nodup_cons, ← ih hrest]
    cases numbers with
    | nil => simp
    | cons n' numbers =>
      rw [List.isChain_cons_cons]
      refine and_congr_left fun _ => ?_
      obtain ⟨hnext, -⟩ := List.isChain_cons_cons.1 h
      obtain ⟨hfirst, -⟩ := List.pairwise_cons.1 hb
      constructor
      · -- Whatever stands behind the first number is above it.
        intro hstep hmem
        rcases hfirst n hmem with hlt | ⟨hlast, -⟩
        · exact Nat.lt_irrefl _ hlt
        · rw [hnext, hlast, Tracker.after_last] at hstep
          exact Nat.ne_of_lt (Nat.lt_succ_self _) hstep
      · -- Only the last number of all is followed by itself.
        intro hnot
        rw [hnext, Tracker.toNat_after]
        rintro rfl
        exact hnot (by rw [hnext, Tracker.after_last]; exact List.mem_cons_self)

end Successive

/-! ## What is received -/

namespace Follower

/-- Whether an event is made when it comes: its number may come, and all its parts can be made. A
    listener may still refuse what it is told of them. -/
def makes (follower : Follower) (e : SequencedEvent) : Bool :=
  match Action.judge e.number follower,
    Forest.Action.applyAll EventPart.toRaised e.event.parts follower.site.forest with
  | .ok .accept _, .ok _ _ => true
  | _, _ => false

/-- A follower receives events, and in between anything may become of the site. The numbers are
    those of the events that are made. -/
inductive Receives (types : TypeRegistry) (follower : Follower) : List UInt64 → Follower → Prop
  | start {past : List Checkpoint} {made : List Change} :
    Site.Reachable types follower.site past made → Receives types follower [] follower
  | receive {numbers : List UInt64} {later : Follower} (e : SequencedEvent) :
    Receives types follower numbers later →
      Receives types follower (numbers ++ if later.makes e then [e.number] else []) (later.after e)
  | meanwhile {numbers : List UInt64} {later : Follower} {site : Site} {past : List Checkpoint}
    {made : List Change} : Receives types follower numbers later →
      Site.Reachable types site past made → Receives types follower numbers ⟨site, later.tracker⟩

variable {types : TypeRegistry} {follower later : Follower} {numbers : List UInt64}

/-- Telling of what an event amounts to concerns the site only. -/
theorem Action.tracker_emitAll {site : Site} {tracker : Option Tracker} (all : List Raised) :
    (stateAfter ((Action.onSite (all.forM Site.Action.emit) >>= fun _ => pure all)
      ⟨site, tracker⟩)).tracker = tracker := by
  cases hemit : all.forM Site.Action.emit site with
  | ok u site' => rw [bind_of_ok (Action.onSite_of_ok hemit)]; rfl
  | error fault site' => rw [bind_of_error (Action.onSite_of_error hemit)]; rfl

section Single

variable {e : SequencedEvent}

/-- An event that is not made changes nothing. -/
theorem after_of_not_makes (hf : follower.site.forest.WellFormed)
    (h : follower.makes e = false) : follower.after e = follower := by
  obtain ⟨site, tracker⟩ := follower
  rw [after]
  rcases Action.judge_eq_or e.number ⟨site, tracker⟩ with ⟨_ | _, hjudge⟩ | ⟨fault, hjudge⟩
  · cases hall : Forest.Action.applyAll EventPart.toRaised e.event.parts site.forest with
    | ok all f' => simp [makes, hjudge, hall] at h
    | error fault f' =>
      obtain rfl := Forest.Action.applyAll_error reads_events hf hall
      rw [Action.receiveEvent_of_error hjudge hall]
      rfl
  · rw [Action.receiveEvent_of_duplicate hjudge]
    rfl
  · rw [Action.receiveEvent_of_gap hjudge]
    rfl

/-- An event that is made becomes what its parts amount to, and the number behind its own is waited
    for, even if a listener refuses to be told. -/
theorem after_of_makes (h : follower.makes e = true) :
    Action.judge e.number follower = .ok .accept follower ∧
      (∃ all, Forest.Action.applyAll EventPart.toRaised e.event.parts follower.site.forest =
        .ok all (follower.after e).site.forest) ∧
      (follower.after e).tracker = follower.tracker.map fun _ => .behind e.number := by
  obtain ⟨site, tracker⟩ := follower
  rcases Action.judge_eq_or e.number ⟨site, tracker⟩ with ⟨_ | _, hjudge⟩ | ⟨fault, hjudge⟩
  · cases hall : Forest.Action.applyAll EventPart.toRaised e.event.parts site.forest with
    | ok all f' =>
      have hafter := congrArg stateAfter (Action.receiveEvent_of_ok hjudge hall)
      -- Telling others comes behind the changes and does not touch the forest.
      have hforest : (after ⟨site, tracker⟩ e).site.forest = f' :=
        (congrArg (·.site.forest) hafter).trans
          (Action.view_emitAll Site.Action.keeps_forest_emit all)
      exact ⟨hjudge, ⟨all, by rw [hforest]⟩,
        (congrArg Follower.tracker hafter).trans (Action.tracker_emitAll all)⟩
    | error fault f' => simp [makes, hjudge, hall] at h
  · simp [makes, hjudge] at h
  · simp [makes, hjudge] at h

/-- An event that is made has the number that is waited for. -/
theorem number_of_makes {tracker : Tracker} (ht : follower.tracker = some tracker)
    (hmakes : follower.makes e = true) : ∀ n ∈ tracker.expected, e.number = n := by
  rintro n hn
  have hjudge := (after_of_makes hmakes).1
  rw [Action.judge, ht] at hjudge
  simp only [Tracker.check, Option.mem_def.1 hn] at hjudge
  by_contra hne
  by_cases hlt : e.number < n <;> simp [hne, hlt] at hjudge

end Single

namespace Receives

variable (h : Receives types follower numbers later)

include h

theorem exists_reachable : ∃ past made, Site.Reachable types later.site past made := by
  induction h with
  | start hsite => exact ⟨_, _, hsite⟩
  | @receive numbers later e _ ih =>
    obtain ⟨past, made, hsite⟩ := ih
    exact ⟨past, _, hsite.call (.follow later.tracker e) (List.forall_mem_nil _)⟩
  | meanwhile _ hsite _ => exact ⟨_, _, hsite⟩

theorem wellFormed : later.site.forest.WellFormed := by
  obtain ⟨past, made, hsite⟩ := h.exists_reachable
  exact hsite.sound.wellFormed

/-- What is waited for is the number behind the last one that was made. -/
theorem tracker_eq {tracker : Tracker} (ht : follower.tracker = some tracker) :
    later.tracker = some ((numbers.getLast?.map Tracker.behind).getD tracker) := by
  induction h with
  | start _ => exact ht
  | meanwhile _ _ ih => exact ih
  | @receive numbers later e hbefore ih =>
    cases hmakes : later.makes e with
    | false => rw [later.after_of_not_makes hbefore.wellFormed hmakes, ih]; simp
    | true =>
      rw [(after_of_makes hmakes).2.2, ih]
      simp

/-- The numbers of the events that are made go up one by one. -/
theorem successive {tracker : Tracker} (ht : follower.tracker = some tracker) :
    Successive numbers ∧ ∀ first ∈ numbers.head?, ∀ n ∈ tracker.expected, first = n := by
  induction h with
  | start _ => exact ⟨.nil, by simp⟩
  | meanwhile _ _ ih => exact ih
  | @receive numbers later e hbefore ih =>
    -- An event that is not made leaves the numbers as they are.
    cases hmakes : later.makes e with
    | false => simpa using ih
    | true =>
      obtain ⟨hsuccessive, hfirst⟩ := ih
      have hnumber := number_of_makes (hbefore.tracker_eq ht) hmakes
      rw [if_pos rfl]
      constructor
      · -- The new number is the one behind the last number that was made.
        refine List.isChain_append.2 ⟨hsuccessive, .singleton _, fun last hlast n hn => ?_⟩
        obtain rfl : e.number = n := by simpa using hn
        rw [Option.mem_def.1 hlast] at hnumber
        exact hnumber _ rfl
      · cases numbers with
        | nil => simpa using hnumber
        | cons first rest => exact hfirst

/-- In whatever is received, every event that is made has the number behind that of the one before
    it, and one that is not made changes nothing. No number is made twice except for the highest
    one; if that is not made twice, the numbers go up by one from each event to the next. -/
theorem onceEach {tracker : Tracker} (ht : follower.tracker = some tracker) :
    (∀ e, later.makes e = false → later.after e = later) ∧
      (∀ e, later.makes e = true →
        (∃ all, Forest.Action.applyAll EventPart.toRaised e.event.parts later.site.forest =
          .ok all (later.after e).site.forest) ∧
        (later.after e).tracker = some (.behind e.number)) ∧
      Successive numbers ∧
      (∀ first ∈ numbers.head?, ∀ n ∈ tracker.expected, first = n) ∧
      (∀ n, n ≠ Tracker.last → numbers.count n ≤ 1) ∧
      (numbers.Nodup ↔ numbers.count Tracker.last ≤ 1) ∧
      ((numbers.IsChain fun n n' => n'.toNat = n.toNat + 1) ↔ numbers.count Tracker.last ≤ 1) := by
  obtain ⟨hsuccessive, hfirst⟩ := h.successive ht
  refine ⟨fun e => later.after_of_not_makes h.wellFormed, fun e hmakes => ?_, hsuccessive, hfirst,
    fun n hn => hsuccessive.count_le_one hn, hsuccessive.nodup_iff,
    hsuccessive.oneByOne_iff.trans hsuccessive.nodup_iff⟩
  -- The tracker is the one behind the last number, as there has been one from the start.
  obtain ⟨-, hall, htracker⟩ := after_of_makes hmakes
  rw [h.tracker_eq ht] at htracker
  exact ⟨hall, htracker⟩

end Receives

end Follower

/-! ## The highest number -/

namespace Examples

/-- Somebody who follows what becomes of a library with a book and waits for a number. -/
def reader (n : UInt64) : Follower := ⟨stocked, some ⟨some n⟩⟩

/-- The book is said to be related to another one. -/
def relating (n : UInt64) : SequencedEvent :=
  ⟨n, .single ⟨[], .entryAdded ⟨⟨"novel"⟩, ⟨"library", "1", "Book-related"⟩, 0⟩
    ⟨none, some "Emma"⟩, none⟩⟩

/-- What becomes of the reader if the same event comes twice. -/
def readTwice (n : UInt64) : Follower := ((reader n).after (relating n)).after (relating n)

theorem receives_twice (n : UInt64) :
    (reader n).Receives libraryTypes
      (([] ++ if (reader n).makes (relating n) then [n] else []) ++
        if ((reader n).after (relating n)).makes (relating n) then [n] else [])
      (readTwice n) :=
  .receive (relating n) (.receive (relating n) (.start reachable_stocked))

/-- An event that comes twice is made once. -/
theorem onceEach_relating :
    (reader 7).Receives libraryTypes [7] (readTwice 7) ∧
      (reader 7).tracker = some ⟨some 7⟩ ∧ [(7 : UInt64)].count 7 ≤ 1 ∧
      (readTwice 7).site.forest.nodes[(⟨"novel"⟩ : NodeId)]?.map (fun n => n.entries ⟨11⟩) =
        some [⟨none, some "Emma"⟩] := by
  have htwice : (reader 7).Receives libraryTypes [7] (readTwice 7) := receives_twice 7
  exact ⟨htwice, rfl, (htwice.onceEach rfl).2.2.2.2.1 7 (by decide), by decide +kernel⟩

/-- An event with the highest number is made as often as it comes. -/
theorem exists_repeated : ∃ numbers later,
    (reader Tracker.last).Receives libraryTypes numbers later ∧ ¬numbers.Nodup ∧
      (¬numbers.IsChain fun n n' => n'.toNat = n.toNat + 1) ∧
      later.site.forest.nodes[(⟨"novel"⟩ : NodeId)]?.map (fun n => n.entries ⟨11⟩) =
        some [⟨none, some "Emma"⟩, ⟨none, some "Emma"⟩] := by
  have htwice : (reader Tracker.last).Receives libraryTypes [Tracker.last, Tracker.last]
    (readTwice Tracker.last) := receives_twice Tracker.last
  exact ⟨_, _, htwice, by decide, by decide, by decide +kernel⟩

end Examples

end DeltaForest
