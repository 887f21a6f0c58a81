import DeltaForest.Proofs.Played

/-!
# What a replay counts

At its end a replay tells how many messages it was given, how many of them were applied, dropped and
skipped, and how many changes were made. These numbers follow from what has become of the messages
(`ReplaySummary.Recounts`): each message is counted once, and each change too.

Only the dropped ones are not what they seem. They are meant to be the events that have been seen
already, but they are told from the others by what was raised: nothing. An event that is accepted
and has no parts raises nothing either, and is dropped as well, even if the order of events is not
looked at and no event can have been seen. The number is right exactly if there are no such events
(`Replayer.Action.recounts_replay`). A command without parts is applied.
-/

namespace DeltaForest

open Protocol

/-! ## The numbers -/

/-- What the numbers of a summary say of the fates of the messages. -/
structure ReplaySummary.Recounts (s : ReplaySummary) (fates : List Fate) : Prop where
  /-- Each message is applied, dropped or skipped. -/
  total : s.applied + s.dropped + s.skipped = fates.length
  /-- Events that have been seen are dropped, and so are events that have no parts. -/
  dropped : s.dropped = fates.count .seen + fates.count (.followed [])
  skipped : s.skipped = fates.count .passed
  changes : s.changes = (fates.flatMap Fate.raised).length

namespace ReplaySummary.Recounts

variable {s : ReplaySummary} {fates : List Fate}

theorem blank (messages : List Message) : (ReplaySummary.blank messages).Recounts [] :=
  ⟨rfl, rfl, rfl, rfl⟩

/-- One message more is counted. -/
theorem counted (h : s.Recounts fates) (fate : Fate) :
    (fate.counted s).Recounts (fates ++ [fate]) := by
  obtain ⟨htotal, hdropped, hskipped, hchanges⟩ := h
  -- An event that has raised nothing is a case of its own.
  rcases fate with all | (_ | ⟨raised, all⟩) | _ | _
  all_goals
    constructor <;> simp [Fate.counted, Fate.raised, List.count_append, *] <;> try omega

/-- Several messages more are counted. -/
theorem foldl_counted (h : s.Recounts fates) (more : List Fate) :
    (more.foldl Fate.counted s).Recounts (fates ++ more) := by
  induction more generalizing s fates with
  | nil => rwa [List.append_nil]
  | cons fate more ih =>
    rw [List.append_cons]
    exact ih (h.counted fate)

/-- Nothing is dropped but what has been seen exactly if every event that is followed has raised
    something. -/
theorem dropped_eq_iff (h : s.Recounts fates) :
    s.dropped = fates.count .seen ↔ .followed [] ∉ fates := by
  rw [h.dropped, Nat.add_eq_left, List.count_eq_zero]

end ReplaySummary.Recounts

/-- Counting leaves alone how many messages there are. -/
theorem Fate.messages_foldl_counted (fates : List Fate) (s : ReplaySummary) :
    (fates.foldl Fate.counted s).messages = s.messages := by
  induction fates generalizing s with
  | nil => rfl
  | cons fate fates ih =>
    refine (ih _).trans ?_
    rcases fate with all | all | _ | _
    case followed => rw [Fate.counted]; split <;> rfl
    all_goals rfl

/-! ## Replays -/

namespace Replayer.Action

variable {types : TypeRegistry} {participation : ParticipationId} {enforcesOrder : Bool}
  {messages : List Message} {s : ReplaySummary} {r : Replayer}

/-- After a replay of a replayer with an empty forest each message is counted once, and so is each
    change that was made. The events that are counted as dropped are those that have been seen, of
    which there are none if the order is not looked at, and those that have no parts; so the number
    is that of the events that have been seen exactly if no other event has come without parts. -/
theorem recounts_replay
    (h : replay messages (start types participation enforcesOrder) = .ok s r) :
    ∃ fates, (start types participation enforcesOrder).Plays messages fates r ∧
      List.Forall₂
        (fun message fate => fate.raised.length = if fate = .seen then 0 else message.width)
        messages fates ∧
      Site.Reachable types r.follower.site [] ((fates.flatMap Fate.raised).map (·.change)) ∧
      s.messages = messages.length ∧ s.messages = s.applied + s.dropped + s.skipped ∧
      s.Recounts fates ∧ (s.dropped = fates.count .seen ↔ .followed [] ∉ fates) ∧
      (enforcesOrder = false → .seen ∉ fates) := by
  obtain ⟨fates, sums, hplays, -, rfl⟩ := replay_eq_ok.1 h
  have hcounted := (ReplaySummary.Recounts.blank messages).foldl_counted fates
  obtain ⟨htotal, hdropped, hskipped, hchanges⟩ := hcounted
  have hrecounts : ({ fates.foldl Fate.counted (.blank messages) with partitions := sums } :
      ReplaySummary).Recounts fates := ⟨htotal, hdropped, hskipped, hchanges⟩
  have hmessages := Fate.messages_foldl_counted fates (.blank messages)
  have hlength := hplays.length_raised.length_eq
  refine ⟨fates, hplays, hplays.length_raised, reachable_of_plays hplays, hmessages, ?_, hrecounts,
    hrecounts.dropped_eq_iff, ?_⟩
  · exact hmessages.trans (hlength.trans htotal.symm)
  · rintro rfl
    exact hplays.seen_notMem rfl

end Replayer.Action

/-! ## A library that is announced -/

namespace Examples

/-- Of five messages two are applied. One has been seen, one has no parts and is dropped with it,
    and one is skipped. -/
theorem recounts_diary : ∃ s r fates,
    Replayer.Action.replay diary (.start libraryTypes ⟨"client"⟩ true) = .ok s r ∧
    (s.messages, s.applied, s.dropped, s.skipped, s.changes) = (5, 2, 2, 1, 2) ∧
    s.Recounts fates := by
  obtain ⟨r, hplays, -⟩ := exists_plays_diary
  have hreplay := hplays.replay_eq (Replayer.reachable_of_plays hplays).sound.wellFormed
  obtain ⟨fates, -, -, -, -, -, hrecounts, -⟩ := Replayer.Action.recounts_replay hreplay
  exact ⟨_, r, fates, hreplay, rfl, hrecounts⟩

/-- The order is not looked at, so that nothing can have been seen, and still an event is counted as
    dropped: it has no parts. -/
theorem exists_miscounted : ∃ fates s r,
    (Replayer.start libraryTypes ⟨"client"⟩ false).Plays [sighing 0] fates r ∧
      Replayer.Action.replay [sighing 0] (.start libraryTypes ⟨"client"⟩ false) = .ok s r ∧
      s.dropped ≠ fates.count .seen := by
  have hnew : ¬(Replayer.start libraryTypes ⟨"client"⟩ false).follower.HasSeen 0 := by
    rintro ⟨_, ⟨⟩, -⟩
  refine ⟨[.followed []], ⟨1, 0, 1, 0, 0, []⟩, _, .cons (.followed hnew rfl) (.nil _), rfl, ?_⟩
  decide

end Examples

end DeltaForest
