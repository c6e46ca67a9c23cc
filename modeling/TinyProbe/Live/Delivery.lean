import TinyProbe.Live.Membership

/-!
# What the hub delivers

Every subscriber in the map is offered every event published since it subscribed, one `Publish` at a
time (`Seat.Fed`), so its window on what it was offered is a window on what was published. When a
`Publish` is done with the subscribers, the event is in the window of each. It never waits for one:
each step under the lock brings the unlock nearer, whatever else happens (`Hub.work`).
-/

namespace TinyProbe.Live

open Run

variable {F : Type}

namespace Channel

variable {c : Channel F}

/-- The events offered to a channel. -/
def events (c : Channel F) : List (Event F) := c.subscription.published.map Delivery.event

private theorem published_proceed :
    (c.step .proceed).subscription.published = c.subscription.published := by
  simp only [step, Subscription.step]
  split
  next => rfl
  next d offer _ =>
    cases offer with
    | sending =>
      simp only [Subscription.proceed]
      split
      next => rfl
      next => rfl
    | draining => rfl
    | resending =>
      simp only [Subscription.proceed]
      split
      next => rfl
      next => rfl

/-- A receive leaves what `Publish` does. -/
theorem receive_subscription : (c.step .receive).subscription.published = c.subscription.published ∧
    (c.step .receive).subscription.publishing = c.subscription.publishing := by
  cases hchannel : c.subscription.channel with
  | nil =>
    rw [step_receive_nil hchannel]
    exact ⟨rfl, rfl⟩
  | cons first rest =>
    rw [step_receive hchannel]
    exact ⟨rfl, rfl⟩

/-- A new `Publish` adds its event to those published. -/
theorem events_publish (hfree : c.subscription.publishing = none) (event : Event F) :
    (c.step (.publish event)).events = c.events ++ [event] := by
  rw [step_publish hfree, events, List.map_append]
  rfl

end Channel

namespace Hub

/-- What the `Publish` under way has still to offer a subscriber. -/
def due (h : Hub F) (id : Nat) : List (Event F) :=
  match h.lock with
  | some ⟨_, _, .offering event remaining _⟩ => if id ∈ remaining then [event] else []
  | _ => []

/-- The subscriber whose `select`s are under way. -/
def current (h : Hub F) : Option Nat :=
  match h.lock with
  | some ⟨_, _, .offering _ _ current⟩ => current
  | _ => none

/-- The event of the `Publish` under way. -/
def newest (h : Hub F) : Option (Event F) :=
  match h.lock with
  | some ⟨_, .publish event, _⟩ => some event
  | _ => none

/-- A subscriber, and what it has been offered of `published`. -/
structure Seat.Fed (seat : Seat F) (published : List (Event F)) (isMember : Prop)
    (due : List (Event F)) (isCurrent : Prop) (newest : Option (Event F)) : Prop where
  windowed : seat.channel.Windowed
  since : seat.since ≤ published.length
  source : seat.channel.events <+: published.drop seat.since
  busy : isCurrent ↔ seat.channel.subscription.publishing ≠ none
  fed : isMember → seat.channel.events ++ due = published.drop seat.since
  fresh : isMember → due = [] → ∀ event, newest = some event →
    seat.channel.events.getLast? = some event

/-- Every subscriber is fed. -/
def Feed (h : Hub F) : Prop := ∀ id,
  (h.seats id).Fed h.published (id ∈ h.subscribers) (h.due id) (h.current = some id) h.newest

section Laws

variable {h h' : Hub F} {id call : Nat} {seat seat' : Seat F} {published : List (Event F)}
  {isMember isMember' isCurrent isCurrent' : Prop} {due' : List (Event F)}
  {newest newest' : Option (Event F)}

/-- A step that changes nothing of it for a subscriber, unless it leaves the map. -/
theorem Seat.Fed.of_eq (hf : seat.Fed published isMember due' isCurrent newest)
    (hpublished : seat'.channel.subscription.published = seat.channel.subscription.published)
    (hpublishing : seat'.channel.subscription.publishing = seat.channel.subscription.publishing)
    (hwindowed : seat'.channel.Windowed) (hsince : seat'.since = seat.since)
    (hmember : isMember' → isMember) (hcurrent : isCurrent' ↔ isCurrent)
    (hnewest : isMember' → newest' = none ∨ newest' = newest) :
    seat'.Fed published isMember' due' isCurrent' newest' := by
  have hevents : seat'.channel.events = seat.channel.events := by
    rw [Channel.events, Channel.events, hpublished]
  refine ⟨hwindowed, hsince ▸ hf.since, ?_, ?_, fun hm => ?_, fun hm hdue event hev => ?_⟩
  · rw [hevents, hsince]
    exact hf.source
  · rw [hcurrent, hpublishing]
    exact hf.busy
  · rw [hevents, hsince]
    exact hf.fed (hmember hm)
  · rw [hevents]
    rcases hnewest hm with hnone | hsame
    · rw [hnone] at hev
      cases hev
    · exact hf.fresh (hmember hm) hdue event (hsame ▸ hev)

/-- A step that offers nothing to anybody. -/
theorem Feed.of_eq (hf : h.Feed) (hpublished : h'.published = h.published)
    (hseats : ∀ id,
      (h'.seats id).channel.subscription.published = (h.seats id).channel.subscription.published ∧
      (h'.seats id).channel.subscription.publishing = (h.seats id).channel.subscription.publishing ∧
      (h'.seats id).channel.Windowed ∧ (h'.seats id).since = (h.seats id).since)
    (hmember : ∀ id ∈ h'.subscribers, id ∈ h.subscribers) (hdue : ∀ id, h'.due id = h.due id)
    (hcurrent : h'.current = h.current)
    (hnewest : ∀ id ∈ h'.subscribers, h'.newest = none ∨ h'.newest = h.newest) : h'.Feed := by
  intro id
  obtain ⟨hpub, hpublishing, hwindowed, hsince⟩ := hseats id
  have hid := hf id
  rw [← hdue] at hid
  rw [hpublished]
  exact hid.of_eq hpub hpublishing hwindowed hsince (hmember id) (by rw [hcurrent]) (hnewest id)

/-- A step of the calls, of the lock or of a `once`. -/
theorem Feed.frame (hf : h.Feed) (hpublished : h'.published = h.published)
    (hseats : ∀ id, (h'.seats id).channel = (h.seats id).channel ∧
      (h'.seats id).since = (h.seats id).since)
    (hmember : h'.subscribers = h.subscribers) (hdue : ∀ id, h'.due id = h.due id)
    (hcurrent : h'.current = h.current)
    (hnewest : ∀ id ∈ h.subscribers, h'.newest = none ∨ h'.newest = h.newest) : h'.Feed := by
  refine hf.of_eq hpublished (fun id => ?_) (fun id hid => hmember ▸ hid) hdue hcurrent
    fun id hid => hnewest id (hmember ▸ hid)
  rw [(hseats id).1]
  exact ⟨rfl, rfl, (hf id).windowed, (hseats id).2⟩

/-- Where a call stands is nothing to the channels. -/
theorem Feed.goto (hf : h.Feed) (pc : Pc F) : (h.goto call pc).Feed :=
  hf.frame rfl (fun _ => ⟨rfl, rfl⟩) rfl (fun _ => rfl) rfl fun _ _ => Or.inr rfl

/-- A new call has not touched them. -/
theorem Feed.spawn (hf : h.Feed) (pc : Pc F) : (h.spawn pc).Feed :=
  hf.frame rfl (fun _ => ⟨rfl, rfl⟩) rfl (fun _ => rfl) rfl fun _ _ => Or.inr rfl

/-- A subscriber changes in what is not its channel. -/
theorem Feed.setSeat (hf : h.Feed) (hchannel : seat.channel = (h.seats id).channel)
    (hsince : seat.since = (h.seats id).since) : (h.setSeat id seat).Feed := by
  refine hf.frame rfl (fun id' => ?_) rfl (fun _ => rfl) rfl fun _ _ => Or.inr rfl
  rw [seats_setSeat]
  split
  next heq => exact heq ▸ ⟨hchannel, hsince⟩
  next => exact ⟨rfl, rfl⟩

/-- A subscriber that is not in the map and has been offered nothing. -/
theorem Feed.vacant (hf : h.Feed) (hmember : id ∉ h.subscribers) (hcurrent : h.current ≠ some id)
    (hchannel : seat.channel.subscription = Subscription.initial)
    (hwindowed : seat.channel.Windowed) (hsince : seat.since ≤ h.published.length) :
    (h.setSeat id seat).Feed := by
  intro id'
  rw [seats_setSeat]
  split
  next heq =>
    subst heq
    have hevents : seat.channel.events = [] := by
      rw [Channel.events, hchannel]
      rfl
    refine ⟨hwindowed, hsince, hevents ▸ List.nil_prefix, ?_, fun hm => absurd hm hmember,
      fun hm => absurd hm hmember⟩
    rw [hchannel]
    exact iff_of_false hcurrent fun hne => hne rfl
  next => exact hf id'

/-- A new hub has no subscribers and has published nothing. -/
theorem feed_new : (new : Hub F).Feed := fun _ =>
  ⟨Channel.windowed_new, Nat.le_refl 0, List.nil_prefix,
    iff_of_false (fun h => by cases h) fun h => h rfl, fun h => absurd h List.not_mem_nil,
    fun h => absurd h List.not_mem_nil⟩

/-- A channel is closed and leaves the map. -/
theorem Feed.remove (hf : h.Feed) (hr : h.Roll) (hid : id ∈ h.subscribers) : (h.remove id).Feed := by
  rw [hr.remove_eq hid]
  refine hf.of_eq rfl (fun id' => ?_) (fun id' hid' => List.mem_of_mem_erase hid') (fun _ => rfl) rfl
    fun _ _ => Or.inr rfl
  show _ ∧ _
  rw [setChannel, seats_setSeat]
  split
  next heq =>
    subst heq
    exact ⟨rfl, rfl, (hf id').windowed.close, rfl⟩
  next => exact ⟨rfl, rfl, (hf id').windowed, rfl⟩

/-! ## Taking the lock -/

/-- Nobody is being offered anything. -/
structure Quiet (h : Hub F) : Prop where
  due : ∀ id, h.due id = []
  current : h.current = none

/-- When the lock is free no `Publish` is under way. -/
theorem quiet_of_free (hlock : h.lock = none) : h.Quiet :=
  ⟨fun id => by rw [Hub.due, hlock], by rw [Hub.current, hlock]⟩

variable {operation : Operation F} {next : Section F}

/-- The lock goes to a step that offers nothing. -/
theorem Feed.hold (hf : h.Feed) (hquiet : h.Quiet)
    (hdue : ∀ id, (h.hold call operation next).due id = [])
    (hcurrent : (h.hold call operation next).current = none)
    (hnewest : ∀ id ∈ h.subscribers, (h.hold call operation next).newest = none ∨
      (h.hold call operation next).newest = h.newest) : (h.hold call operation next).Feed :=
  hf.frame rfl (fun _ => ⟨rfl, rfl⟩) rfl (fun id => (hdue id).trans (hquiet.due id).symm)
    (hcurrent.trans hquiet.current.symm) hnewest

/-- `Publish` gets the lock: everybody in the map is due the event. -/
theorem Feed.enter_publish (hf : h.Feed) (hquiet : h.Quiet) (event : Event F) {order : List Nat}
    (horder : order.Perm h.subscribers) :
    ({ h with published := h.published ++ [event] }.hold call (.publish event)
      (.offering event order none)).Feed := by
  intro id
  have hid := hf id
  rw [hquiet.due, hquiet.current] at hid
  have hdrop : (h.published ++ [event]).drop (h.seats id).since =
      h.published.drop (h.seats id).since ++ [event] := List.drop_append_of_le_length hid.since
  show (h.seats id).Fed (h.published ++ [event]) (id ∈ h.subscribers)
    (if id ∈ order then [event] else []) (none = some id) (some event)
  refine ⟨hid.windowed, ?_, ?_, hid.busy, fun hm => ?_, fun hm hdue => ?_⟩
  · rw [List.length_append]
    exact Nat.le_trans hid.since (Nat.le_add_right _ _)
  · rw [hdrop]
    exact hid.source.trans (List.prefix_append _ _)
  · rw [if_pos (horder.mem_iff.mpr hm), hdrop, ← hid.fed hm, List.append_nil]
  · rw [if_pos (horder.mem_iff.mpr hm)] at hdue
    cases hdue

/-- The call that takes the lock does the first of its work. -/
theorem Feed.enter (hf : h.Feed) (hr : h.Ruled) (hlock : h.lock = none)
    (hpc : h.calls[call]? = some (.locking operation)) {order : List Nat}
    (horder : order.Perm h.subscribers) : (h.enter call operation order).Feed := by
  have hquiet := quiet_of_free hlock
  have hnone : h.current ≠ some call := fun h => by rw [hquiet.current] at h; cases h
  have hempty := hr.locked
  rw [Locked, hlock] at hempty
  cases operation with
  | subscribe =>
    have hs := hr.roll.sound call
    have hmade := hr.roll.made call hpc
    have hopen := hs.made hmade
    have hinitial := hs.untouched fun heq => by rw [hmade] at heq; cases heq
    have hmember : call ∉ h.subscribers := fun hmem => by
      have hadmitted := (hs.member.mp hmem).2
      rw [hmade] at hadmitted
      cases hadmitted
    simp only [Hub.enter]
    split
    next =>
      rw [closeChannel_of_open hopen]
      refine Feed.hold ?_ (quiet_of_free hlock) (fun _ => rfl) rfl fun _ _ => Or.inl rfl
      have hclosed : (h.setChannel call { (h.seats call).channel with closed := true }).Feed :=
        hf.vacant hmember hnone hinitial (hf call).windowed.close (hf call).since
      refine hclosed.vacant hmember hnone ?_ ?_ (Nat.le_refl _)
      · rw [setChannel, seats_setSeat_self]
        exact hinitial
      · rw [setChannel, seats_setSeat_self]
        exact (hf call).windowed.close
    next =>
      refine Feed.hold ?_ (quiet_of_free hlock) (fun _ => rfl) rfl fun _ _ => Or.inl rfl
      intro id
      rw [settle, seats_setSeat]
      split
      next heq =>
        subst heq
        have hevents : (h.seats id).channel.events = [] := by
          rw [Channel.events, hinitial]
          rfl
        refine ⟨(hf id).windowed, Nat.le_refl _, ?_, ?_, fun _ => ?_, fun _ _ event hev => ?_⟩
        · exact hevents ▸ List.nil_prefix
        · have hbusy := (hf id).busy
          exact hbusy
        · show (h.seats id).channel.events ++ h.due id = h.published.drop h.published.length
          rw [hevents, hquiet.due, List.drop_length]
          rfl
        · change h.newest = some event at hev
          rw [newest, hlock] at hev
          cases hev
      next hne =>
        have hid := hf id
        have hiff : (id ∈ h.subscribers ++ [call]) = (id ∈ h.subscribers) := propext
          (List.mem_append.trans (or_iff_left fun hmem => hne (List.mem_singleton.mp hmem)))
        rw [← hiff] at hid
        exact hid
  | cancel id =>
    simp only [Hub.enter]
    split
    next hid =>
      refine Feed.hold (hf.remove hr.roll hid) ?_ (fun _ => rfl) rfl fun _ _ => Or.inl rfl
      rw [hr.roll.remove_eq hid]
      exact quiet_of_free hlock
    next => exact hf.hold hquiet (fun _ => rfl) rfl fun _ _ => Or.inl rfl
  | publish event =>
    simp only [Hub.enter]
    split
    next hclosed =>
      refine hf.hold hquiet (fun _ => rfl) rfl fun id hid => ?_
      rw [hempty hclosed] at hid
      cases hid
    next => exact hf.enter_publish hquiet event horder
  | close =>
    simp only [Hub.enter]
    split
    next => exact hf.hold hquiet (fun _ => rfl) rfl fun _ _ => Or.inl rfl
    next =>
      refine Feed.hold ?_ (quiet_of_free hlock) (fun _ => rfl) rfl fun _ _ => Or.inl rfl
      exact hf.frame rfl (fun _ => ⟨rfl, rfl⟩) rfl (fun _ => rfl) rfl fun _ _ => Or.inr rfl

/-! ## Under the lock -/

/-- A step of `Publish`, a receive. -/
theorem Feed.setChannel (hf : h.Feed) {channel : Channel F} (hwindowed : channel.Windowed)
    (hpublished : channel.subscription.published = (h.seats id).channel.subscription.published)
    (hpublishing : channel.subscription.publishing = (h.seats id).channel.subscription.publishing) :
    (h.setChannel id channel).Feed := by
  refine hf.of_eq rfl (fun id' => ?_) (fun _ hid => hid) (fun _ => rfl) rfl fun _ _ => Or.inr rfl
  rw [Hub.setChannel, seats_setSeat]
  split
  next heq =>
    subst heq
    exact ⟨hpublished, hpublishing, hwindowed, rfl⟩
  next => exact ⟨rfl, rfl, (hf id').windowed, rfl⟩

/-- `Publish` comes to the next subscriber. -/
theorem Feed.reach (hf : h.Feed) {event : Event F} {remaining : List Nat}
    (hlock : h.lock = some ⟨call, .publish event, .offering event (id :: remaining) none⟩)
    (hid : id ∈ h.subscribers) (hnot : id ∉ remaining) :
    ((h.setChannel id ((h.seats id).channel.step (.publish event))).hold call (.publish event)
      (.offering event remaining (some id))).Feed := by
  have hcurrent : h.current = none := by rw [current, hlock]
  have hnewest : h.newest = some event := by rw [newest, hlock]
  have hdue : ∀ id' : Nat, h.due id' = if id' ∈ id :: remaining then [event] else [] := fun id' => by
    rw [due, hlock]
  intro id'
  have hfed := hf id'
  rw [hdue, hcurrent, hnewest] at hfed
  show ((h.setChannel _ _).seats id').Fed h.published (id' ∈ h.subscribers)
    (if id' ∈ remaining then [event] else []) (some id = some id') (some event)
  rw [Hub.setChannel, seats_setSeat]
  split
  next heq =>
    subst heq
    rw [if_pos List.mem_cons_self] at hfed
    rw [if_neg hnot]
    have hfree : (h.seats id').channel.subscription.publishing = none := by
      by_contra hne
      cases hfed.busy.mpr hne
    have hevents := Channel.events_publish hfree event
    have hsource := hfed.fed hid
    refine ⟨hfed.windowed.step (.publish event), hfed.since, ?_, ?_, fun _ => ?_,
      fun _ _ event' hev => ?_⟩
    · rw [hevents]
      exact hsource ▸ List.prefix_refl _
    · rw [Channel.step_publish hfree]
      exact iff_of_true rfl fun h => by cases h
    · rw [hevents, List.append_nil]
      exact hsource
    · rw [hevents, List.getLast?_concat]
      exact hev
  next hne =>
    have hmem : (id' ∈ id :: remaining) = (id' ∈ remaining) := propext
      (List.mem_cons.trans (or_iff_right hne))
    rw [if_congr (iff_of_eq hmem) rfl rfl] at hfed
    refine ⟨hfed.windowed, hfed.since, hfed.source, ?_, hfed.fed, hfed.fresh⟩
    rw [← hfed.busy]
    exact iff_of_false (fun heq => hne (Option.some.inj heq).symm) fun h => by cases h

/-- A `select`. -/
theorem Feed.offer (hf : h.Feed) {event : Event F} {remaining : List Nat}
    (hlock : h.lock = some ⟨call, .publish event, .offering event remaining (some id)⟩)
    {channel : Channel F} (hchannel : channel = (h.seats id).channel.step .proceed) :
    ((h.setChannel id channel).hold call (.publish event)
      (.offering event remaining
        (if channel.subscription.publishing.isSome then some id else none))).Feed := by
  have hcurrent : h.current = some id := by rw [current, hlock]
  have hnewest : h.newest = some event := by rw [newest, hlock]
  have hdue : ∀ id' : Nat, h.due id' = if id' ∈ remaining then [event] else [] := fun id' => by
    rw [due, hlock]
  have hpublished : channel.events = (h.seats id).channel.events := by
    rw [hchannel, Channel.events, Channel.published_proceed, Channel.events]
  intro id'
  have hfed := hf id'
  rw [hdue, hcurrent, hnewest] at hfed
  show ((h.setChannel _ _).seats id').Fed h.published (id' ∈ h.subscribers)
    (if id' ∈ remaining then [event] else [])
    ((if channel.subscription.publishing.isSome then some id else none) = some id') (some event)
  rw [Hub.setChannel, seats_setSeat]
  split
  next heq =>
    subst heq
    refine ⟨hchannel ▸ hfed.windowed.step .proceed, hfed.since, hpublished ▸ hfed.source, ?_,
      fun hm => hpublished ▸ hfed.fed hm, fun hm hd => hpublished ▸ hfed.fresh hm hd⟩
    show _ ↔ channel.subscription.publishing ≠ none
    cases channel.subscription.publishing with
    | none => exact iff_of_false (fun h => by cases h) fun h => h rfl
    | some under => exact iff_of_true rfl fun h => by cases h
  next hne =>
    refine ⟨hfed.windowed, hfed.since, hfed.source, ?_, hfed.fed, hfed.fresh⟩
    rw [← hfed.busy]
    refine iff_of_false (fun heq => ?_) fun heq => hne (Option.some.inj heq).symm
    split at heq
    next => exact hne (Option.some.inj heq).symm
    next => cases heq

/-- The call with the lock does the next of it. -/
theorem Feed.proceed (hf : h.Feed) (hr : h.Ruled)
    (hlock : h.lock = some ⟨call, operation, next⟩) : (h.proceed call operation next).Feed := by
  have hlocked := hr.locked
  rw [Locked, hlock] at hlocked
  obtain ⟨_, hheld, _⟩ := hlocked
  dsimp only at hheld
  cases next with
  | offering event remaining current =>
    obtain ⟨rfl, hopen, hnodup, hsub⟩ := hheld
    cases current with
    | some id =>
      have hid := hsub id (List.mem_append_left _ List.mem_cons_self)
      have hchannel := ((hr.roll.sound id).member.mp hid).1
      simp only [Hub.proceed, Hub.offer, hchannel, Bool.false_and, Bool.false_eq_true, if_false]
      exact hf.offer hlock rfl
    | none =>
      cases remaining with
      | nil =>
        refine hf.frame rfl (fun _ => ⟨rfl, rfl⟩) rfl (fun id => ?_) ?_ fun _ _ => Or.inr ?_
        · rw [due, due, hlock]
          rfl
        · rw [Hub.current, Hub.current, hlock]
          rfl
        · rw [newest, newest, hlock]
          rfl
      | cons id remaining =>
        exact hf.reach hlock (hsub id List.mem_cons_self) (List.nodup_cons.mp hnodup).1
  | closing remaining =>
    obtain ⟨rfl, hclosed, hperm⟩ := hheld
    have hquiet : h.Quiet := ⟨fun id => by rw [due, hlock], by rw [current, hlock]⟩
    cases remaining with
    | nil => exact hf.hold hquiet (fun _ => rfl) rfl fun _ _ => Or.inl rfl
    | cons id remaining =>
      have hid := hperm.mem_iff.mp List.mem_cons_self
      refine Feed.hold (hf.remove hr.roll hid) ?_ (fun _ => rfl) rfl fun _ _ => Or.inl rfl
      rw [hr.roll.remove_eq hid]
      exact ⟨hquiet.due, hquiet.current⟩
  | done =>
    refine Feed.goto (h := { h with lock := none }) ?_ _
    refine hf.frame rfl (fun _ => ⟨rfl, rfl⟩) rfl (fun id => ?_) ?_ fun _ _ => Or.inl rfl
    · rw [due, due, hlock]
    · rw [current, current, hlock]

/-- A call that returns has done its work. -/
theorem Feed.finish (hf : h.Feed) (operation : Operation F) : (h.finish call operation).Feed := by
  cases operation with
  | subscribe =>
    refine Feed.goto ?_ _
    exact hf.setSeat rfl rfl
  | cancel id =>
    refine Feed.goto ?_ _
    exact hf.setSeat rfl rfl
  | publish event => exact hf.goto _
  | close =>
    refine Feed.goto (h := { h with closeReturned := true }) ?_ _
    exact hf.frame rfl (fun _ => ⟨rfl, rfl⟩) rfl (fun _ => rfl) rfl fun _ _ => Or.inr rfl

/-- Every step of a call feeds the subscribers as it should. -/
theorem Feed.advance (hf : h.Feed) (hr : h.Ruled) (call : Nat) (order : List Nat) :
    (h.advance call order).Feed := by
  unfold Hub.advance
  split
  next => exact hf
  next => exact hf
  next id hpc =>
    split
    next =>
      refine Feed.goto ?_ _
      exact hf.setSeat rfl rfl
    next => exact hf
    next => exact hf.goto _
  next operation hpc =>
    split
    next => exact hf
    next hlock =>
      split
      next horder => exact (hf.enter hr hlock hpc (List.isPerm_iff.mp horder)).goto _
      next => exact hf
  next hpc =>
    split
    next => exact hf
    next holder hlock =>
      split
      next hcall =>
        subst hcall
        exact hf.proceed hr hlock
      next => exact hf
  next operation hpc => exact hf.finish operation

/-- A `Publish` is at a subscriber in the map. -/
theorem Ruled.current_mem (hr : h.Ruled) (hcurrent : h.current = some id) : id ∈ h.subscribers := by
  have hlocked := hr.locked
  unfold current at hcurrent
  split at hcurrent
  next hlock =>
    rw [Locked, hlock] at hlocked
    refine hlocked.2.1.2.2.2 id (List.mem_append_left _ ?_)
    rw [hcurrent]
    exact List.mem_cons_self
  next => cases hcurrent

/-- The next call of `Subscribe` has no channel yet. -/
theorem Ruled.not_mem_length (hr : h.Ruled) : h.calls.length ∉ h.subscribers := by
  intro hmem
  have hadmitted := ((hr.roll.sound _).member.mp hmem).2
  rw [hr.roll.absent _ (Nat.le_refl _)] at hadmitted
  cases hadmitted

/-- A receive takes from one channel, and leaves what is published. -/
theorem Feed.receive (hf : h.Feed) (id : Nat) :
    (h.setChannel id ((h.seats id).channel.step .receive)).Feed :=
  hf.setChannel ((hf id).windowed.step .receive) Channel.receive_subscription.1
    Channel.receive_subscription.2

/-- **One step.** -/
theorem Feed.step (hf : h.Feed) (hr : h.Ruled) (a : Action F) : (h.step a).Feed := by
  unfold Hub.step
  split
  next => exact hf
  next =>
    split
    next =>
      refine Feed.spawn (hf.vacant hr.not_mem_length (fun hcurrent => ?_) rfl Channel.windowed_new
        (Nat.zero_le _)) _
      exact hr.not_mem_length (hr.current_mem hcurrent)
    next =>
      split
      next =>
        split
        next => exact hf.spawn _
        next => exact hf.spawn _
        next => exact hf
      next => exact hf
    next => exact hf.spawn _
    next => exact hf.spawn _
    next => exact hf.advance hr _ _
    next id =>
      split
      next => exact hf.receive id
      next => exact hf

/-- What holds in every run. -/
structure Served (h : Hub F) : Prop where
  ruled : h.Ruled
  feed : h.Feed

/-- Every step keeps the order of the channels and the calls. -/
theorem Served.step (hs : h.Served) (a : Action F) : (h.step a).Served :=
  ⟨hs.ruled.step a, hs.feed.step hs.ruled a⟩

/-- Every run of the hub keeps them. -/
theorem served_run (as : List (Action F)) : (run Hub.step new as).Served :=
  run_invariant (fun _ a hs => hs.step a) ⟨ruled_new, feed_new⟩ as

end Laws

/-! ## A `Publish` never waits for a subscriber -/

/-- The steps that `Publish` may need at the subscriber it is at. -/
def phase (c : Channel F) : Nat :=
  match c.subscription.publishing with
  | some (_, .sending) => 3
  | some (_, .draining) => 2
  | some (_, .resending) => 1
  | none => 0

/-- The steps that the call with the lock may need until it has unlocked. -/
def work (h : Hub F) : Nat :=
  match h.lock with
  | none => 0
  | some ⟨_, _, .offering _ remaining current⟩ =>
    4 * remaining.length + current.elim 0 (fun id => phase (h.seats id).channel) + 2
  | some ⟨_, _, .closing remaining⟩ => remaining.length + 2
  | some ⟨_, _, .done⟩ => 1

/-- It is the turn of the call. -/
def Action.isTurn (call : Nat) : Action F → Bool
  | .advance c _ => c == call
  | _ => false

section Laws

variable {h h' : Hub F} {id call : Nat} {operation : Operation F} {next : Section F}

private theorem phase_publish {c : Channel F} (hfree : c.subscription.publishing = none)
    (event : Event F) : phase (c.step (.publish event)) = 3 := by
  rw [Channel.step_publish hfree]
  rfl

/-- A `select` brings `Publish` nearer to the next subscriber. -/
theorem phase_proceed {c : Channel F} (hbusy : c.subscription.publishing ≠ none) :
    phase (c.step .proceed) < phase c := by
  cases hpublishing : c.subscription.publishing with
  | none => exact absurd hpublishing hbusy
  | some under =>
    obtain ⟨d, offer⟩ := under
    cases offer with
    | sending =>
      rw [Channel.step_sending hpublishing]
      split
      next => simp only [phase, hpublishing, Nat.zero_lt_succ]
      next => simp only [phase, hpublishing, Nat.lt_succ_self]
    | draining =>
      rw [Channel.step_draining hpublishing]
      simp only [phase, hpublishing, Nat.lt_succ_self]
    | resending =>
      have hfree : (c.step .proceed).subscription.publishing = none := by
        simp only [Channel.step, Subscription.step, hpublishing, Subscription.proceed]
        split
        next => rfl
        next => rfl
      simp only [phase, hfree, hpublishing, Nat.zero_lt_one]

/-- **A step of the call that has the lock**: it unlocks, or is nearer to it. -/
theorem work_proceed (hr : h.Ruled) (hf : h.Feed) (hlock : h.lock = some ⟨call, operation, next⟩) :
    (h.proceed call operation next).calls[call]? = some (.returning operation) ∨
      ∃ next', (h.proceed call operation next).lock = some ⟨call, operation, next'⟩ ∧
        (h.proceed call operation next).work < h.work := by
  have hlocked := hr.locked
  rw [Locked, hlock] at hlocked
  obtain ⟨hpc, hheld, _⟩ := hlocked
  dsimp only at hpc hheld
  cases next with
  | offering event remaining current =>
    obtain ⟨rfl, hopen, hnodup, hsub⟩ := hheld
    right
    cases current with
    | some id =>
      have hid := hsub id (List.mem_append_left _ List.mem_cons_self)
      have hchannel := ((hr.roll.sound id).member.mp hid).1
      have hbusy := (hf id).busy.mp (by rw [current, hlock])
      have hphase := phase_proceed hbusy
      simp only [Hub.proceed, Hub.offer, hchannel, Bool.false_and, Bool.false_eq_true, if_false]
      refine ⟨_, rfl, ?_⟩
      rw [work, work, hlock]
      simp only [hold, Hub.setChannel]
      split
      next =>
        simp only [Option.elim_some, seats_setSeat_self]
        omega
      next =>
        simp only [Option.elim_none, Option.elim_some]
        omega
    | none =>
      cases remaining with
      | nil =>
        refine ⟨_, rfl, ?_⟩
        rw [work, work, hlock]
        simp only [Hub.proceed, hold]
        omega
      | cons id remaining =>
        refine ⟨_, rfl, ?_⟩
        have hfree : (h.seats id).channel.subscription.publishing = none := by
          by_contra hne
          have hcurrent := (hf id).busy.mpr hne
          rw [current, hlock] at hcurrent
          cases hcurrent
        rw [work, work, hlock]
        simp only [Hub.proceed, hold, Hub.setChannel, Option.elim_some, Option.elim_none,
          seats_setSeat_self, phase_publish hfree, List.length_cons]
        omega
  | closing remaining =>
    right
    cases remaining with
    | nil =>
      refine ⟨_, rfl, ?_⟩
      rw [work, work, hlock]
      simp only [Hub.proceed, hold]
      omega
    | cons id remaining =>
      refine ⟨_, rfl, ?_⟩
      rw [work, work, hlock]
      simp only [Hub.proceed, hold, List.length_cons]
      omega
  | done => exact Or.inl (calls_goto (h := { h with lock := none }) hpc)

private theorem work_congr (hlock : h'.lock = h.lock) (hpublishing : ∀ id, h.current = some id →
    (h'.seats id).channel.subscription.publishing = (h.seats id).channel.subscription.publishing) :
    h'.work = h.work := by
  unfold work
  rw [hlock]
  split
  next => rfl
  next call operation event remaining current hheld =>
    cases current with
    | none => rfl
    | some id =>
      have hphase : phase (h'.seats id).channel = phase (h.seats id).channel := by
        rw [phase, phase, hpublishing id (by rw [Hub.current, hheld])]
      rw [Option.elim_some, Option.elim_some, hphase]
  next => rfl
  next => rfl

/-- A step at a seat leaves the lock, and the work if it leaves the channel. -/
theorem work_setSeat {seat : Seat F} (hchannel : h.current = some id →
    seat.channel.subscription.publishing = (h.seats id).channel.subscription.publishing) :
    (h.setSeat id seat).work = h.work := by
  refine work_congr rfl fun id' hcurrent => ?_
  rw [seats_setSeat]
  split
  next heq => exact heq ▸ hchannel (heq ▸ hcurrent)
  next => rfl

private theorem work_finish : (h.finish call operation).lock = h.lock ∧
    (h.finish call operation).work = h.work := by
  cases operation with
  | subscribe =>
    have hseat : (h.setSeat call { h.seats call with returned := true }).work = h.work :=
      work_setSeat fun _ => rfl
    exact ⟨rfl, hseat⟩
  | cancel id =>
    have hseat : (h.setSeat id { h.seats id with once := .done }).work = h.work :=
      work_setSeat fun _ => rfl
    exact ⟨rfl, hseat⟩
  | publish event => exact ⟨rfl, rfl⟩
  | close => exact ⟨rfl, rfl⟩

/-- **Whatever else happens, the lock stays and the work does not grow.** -/
theorem work_step (hs : h.Served) (hlock : h.lock = some ⟨call, operation, next⟩) {a : Action F}
    (hturn : a.isTurn call = false) : (h.step a).lock = h.lock ∧ (h.step a).work = h.work := by
  unfold Hub.step
  split
  next => exact ⟨rfl, rfl⟩
  next =>
    split
    next =>
      have hseat : (h.setSeat h.calls.length
          { Seat.new with stage := .made, late := h.closeReturned }).work = h.work :=
        work_setSeat fun hcurrent => absurd (hs.ruled.current_mem hcurrent) hs.ruled.not_mem_length
      exact ⟨rfl, hseat⟩
    next =>
      split
      next =>
        split
        next => exact ⟨rfl, rfl⟩
        next => exact ⟨rfl, rfl⟩
        next => exact ⟨rfl, rfl⟩
      next => exact ⟨rfl, rfl⟩
    next => exact ⟨rfl, rfl⟩
    next => exact ⟨rfl, rfl⟩
    next c order =>
      unfold Hub.advance
      split
      next => exact ⟨rfl, rfl⟩
      next => exact ⟨rfl, rfl⟩
      next id _ =>
        split
        next =>
          have hseat : (h.setSeat id { h.seats id with once := .running }).work = h.work :=
            work_setSeat fun _ => rfl
          exact ⟨rfl, hseat⟩
        next => exact ⟨rfl, rfl⟩
        next => exact ⟨rfl, rfl⟩
      next =>
        rw [hlock]
        exact ⟨hlock, rfl⟩
      next =>
        have hne : call ≠ c := fun heq => by
          rw [Action.isTurn, heq, beq_self_eq_true] at hturn
          cases hturn
        rw [hlock]
        dsimp only
        rw [if_neg hne]
        exact ⟨hlock, rfl⟩
      next => exact work_finish
    next id =>
      split
      next =>
        exact ⟨rfl, work_setSeat fun _ => Channel.receive_subscription.2⟩
      next => exact ⟨rfl, rfl⟩

/-- The call has unlocked. -/
def Left (h : Hub F) (call : Nat) : Prop :=
  ∃ pc, h.calls[call]? = some pc ∧ (pc = .returned ∨ ∃ operation, pc = .returning operation)

/-- The call that goes on is not one that has unlocked. -/
theorem Left.goto {c : Nat} {pc pc' : Pc F} (hleft : h.Left call) (hpc : h.calls[c]? = some pc)
    (hne : pc ≠ .returned ∧ ∀ operation, pc ≠ .returning operation) : (h.goto c pc').Left call := by
  obtain ⟨left, hcall, hgone⟩ := hleft
  refine ⟨left, ?_, hgone⟩
  have hother : c ≠ call := by
    rintro rfl
    rw [hpc] at hcall
    cases hcall
    rcases hgone with hgone | ⟨operation, hgone⟩
    · exact hne.1 hgone
    · exact hne.2 operation hgone
  show (h.calls.set c pc')[call]? = _
  rw [List.getElem?_set_ne hother, hcall]

private theorem calls_remove : (h.remove id).calls = h.calls := by
  unfold remove closeChannel
  split
  next => rfl
  next => rfl

private theorem calls_enter (order : List Nat) :
    (h.enter call operation order).calls = h.calls := by
  unfold enter
  split
  next =>
    split
    next =>
      unfold closeChannel
      split
      next => rfl
      next => rfl
    next => rfl
  next =>
    split
    next => exact calls_remove
    next => rfl
  next =>
    split
    next => rfl
    next => rfl
  next =>
    split
    next => rfl
    next => rfl

private theorem calls_offer (event : Event F) (remaining : List Nat) :
    (h.offer call operation event remaining id).calls = h.calls := by
  unfold offer
  dsimp only
  split
  next => rfl
  next => rfl

/-- Whether a call has unlocked depends on the calls. -/
theorem Left.of_eq (hleft : h.Left call) (hcalls : h'.calls = h.calls) : h'.Left call := by
  obtain ⟨pc, hcall, hgone⟩ := hleft
  exact ⟨pc, by rw [hcalls, hcall], hgone⟩

private theorem Left.proceed {c : Nat} (hleft : h.Left call) (hpc : h.calls[c]? = some .locked) :
    (h.proceed c operation next).Left call := by
  unfold Hub.proceed
  split
  next => exact hleft.of_eq (calls_offer _ _)
  next => exact hleft.of_eq rfl
  next => exact hleft.of_eq rfl
  next => exact hleft.of_eq calls_remove
  next => exact hleft.of_eq rfl
  next =>
    exact Left.goto (h := { h with lock := none }) hleft hpc
      ⟨(fun h => by cases h), fun _ h => by cases h⟩

private theorem Left.finish {c : Nat} (hleft : h.Left call)
    (hpc : h.calls[c]? = some (.returning operation)) : (h.finish c operation).Left call := by
  have hset : ∀ h' : Hub F, h'.calls = h.calls.set c .returned → h'.Left call := by
    intro h' hcalls
    obtain ⟨pc, hcall, hgone⟩ := hleft
    by_cases heq : c = call
    · subst heq
      exact ⟨.returned, by rw [hcalls, List.getElem?_set_self (lt_of_getElem? hpc)], Or.inl rfl⟩
    · exact ⟨pc, by rw [hcalls, List.getElem?_set_ne heq, hcall], hgone⟩
  cases operation with
  | subscribe => exact hset _ rfl
  | cancel id => exact hset _ rfl
  | publish event => exact hset _ rfl
  | close => exact hset _ rfl

private theorem Left.spawn (hleft : h.Left call) (pc : Pc F) : (h.spawn pc).Left call := by
  obtain ⟨left, hcall, hgone⟩ := hleft
  refine ⟨left, ?_, hgone⟩
  show (h.calls ++ [pc])[call]? = _
  rw [List.getElem?_append_left (lt_of_getElem? hcall), hcall]

/-- A call that has unlocked stays so at every step. -/
theorem Left.step (hleft : h.Left call) (a : Action F) : (h.step a).Left call := by
  unfold Hub.step
  split
  next => exact hleft
  next =>
    split
    next => exact Left.spawn (hleft.of_eq rfl) _
    next =>
      split
      next =>
        split
        next => exact hleft.spawn _
        next => exact hleft.spawn _
        next => exact hleft
      next => exact hleft
    next => exact hleft.spawn _
    next => exact hleft.spawn _
    next c order =>
      unfold Hub.advance
      split
      next => exact hleft
      next => exact hleft
      next id hpc =>
        have hne : (.once id : Pc F) ≠ .returned ∧
            ∀ operation, (.once id : Pc F) ≠ .returning operation :=
          ⟨(fun h => by cases h), fun _ h => by cases h⟩
        split
        next => exact Left.goto (hleft.of_eq rfl) hpc hne
        next => exact hleft
        next => exact hleft.goto hpc hne
      next operation hpc =>
        split
        next => exact hleft
        next =>
          split
          next =>
            have hcalls : (h.enter c operation order).calls[c]? = some (.locking operation) := by
              rw [calls_enter, hpc]
            exact Left.goto (hleft.of_eq (calls_enter order)) hcalls
              ⟨(fun h => by cases h), fun _ h => by cases h⟩
          next => exact hleft
      next hpc =>
        split
        next => exact hleft
        next holder _ =>
          split
          next => exact hleft.proceed hpc
          next => exact hleft
      next operation hpc => exact hleft.finish hpc
    next id =>
      split
      next => exact hleft.of_eq rfl
      next => exact hleft

/-- **The call with the lock unlocks after as many turns as it has work**, whatever happens between
them. -/
theorem left_run (hs : h.Served) (hlock : h.lock = some ⟨call, operation, next⟩)
    (as : List (Action F)) (hturns : h.work ≤ as.countP (Action.isTurn call)) :
    (run Hub.step h as).Left call := by
  induction as generalizing h next with
  | nil =>
    rw [List.countP_nil, Nat.le_zero] at hturns
    exfalso
    rw [work, hlock] at hturns
    cases next with
    | offering event remaining current => exact Nat.succ_ne_zero _ hturns
    | closing remaining => exact Nat.succ_ne_zero _ hturns
    | done => exact Nat.succ_ne_zero _ hturns
  | cons a as ih =>
    rw [run_cons]
    rw [List.countP_cons] at hturns
    cases hturn : a.isTurn call with
    | false =>
      obtain ⟨hsame, hwork⟩ := work_step hs hlock hturn
      rw [hturn, if_neg Bool.false_ne_true, Nat.add_zero, ← hwork] at hturns
      exact ih (hs.step a) (hsame.trans hlock) hturns
    | true =>
      rw [hturn, if_pos rfl] at hturns
      have hlocked := hs.ruled.locked
      rw [Locked, hlock] at hlocked
      have hstep : h.step a = h.proceed call operation next := by
        cases a with
        | advance c order =>
          obtain rfl : c = call := beq_iff_eq.mp hturn
          simp only [Hub.step, hs.ruled.panicked, Hub.advance, hlocked.1, hlock, if_true,
            Bool.false_eq_true, if_false]
        | subscribe => cases hturn
        | cancel id => cases hturn
        | publish event => cases hturn
        | close => cases hturn
        | receive id => cases hturn
      have hnext := hs.step a
      rw [hstep] at hnext ⊢
      rcases work_proceed hs.ruled hs.feed hlock with hleft | ⟨next', hlock', hwork⟩
      · have hgone : (h.proceed call operation next).Left call := ⟨_, hleft, Or.inr ⟨_, rfl⟩⟩
        have hkeeps : ∀ (h' : Hub F) (a : Action F), h'.Left call → (h'.step a).Left call :=
          fun _ a hleft => hleft.step a
        exact run_invariant hkeeps hgone as
      · exact ih hnext hlock' (by omega)

end Laws

/-! ## The window of a subscriber -/

/-- What subscriber `id` has received and what is in its buffer, together, of what was published since
it subscribed. -/
structure Window (h : Hub F) (id : Nat) : Prop where
  /-- It is offered what is published, while it is in the map all of it. -/
  source : (h.seats id).channel.events <+: h.published.drop (h.seats id).since
  complete : id ∈ h.subscribers → h.due id = [] →
    (h.seats id).channel.events = h.published.drop (h.seats id).since
  ordered : (h.seats id).channel.window.Sublist (h.seats id).channel.subscription.published
  distinct : (h.seats id).channel.window.Nodup
  capacity : (h.seats id).channel.subscription.channel.length ≤ subscriberCapacity
  /-- Only a discard loses an event. -/
  lost : ∀ d ∈ (h.seats id).channel.subscription.published, d ∈ (h.seats id).channel.window ∨
    d ∈ (h.seats id).channel.subscription.offered ∨
      ∃ x ∈ (h.seats id).channel.discards, x.lost = d
  /-- No `Publish` makes two. -/
  once : (h.seats id).channel.discards.Pairwise fun x y => x.offered.number < y.offered.number
  oldest : ∀ x ∈ (h.seats id).channel.discards, (h.seats id).channel.Oldest x
  /-- The event of a `Publish` that is about to unlock is in the window, as the last. -/
  retained : ∀ call event, h.lock = some ⟨call, .publish event, .done⟩ → id ∈ h.subscribers →
    ∃ d, (h.seats id).channel.window.getLast? = some d ∧ d.event = event

/-- What a subscriber has received and what is buffered is a window on what is published. -/
theorem Served.window {h : Hub F} (hs : h.Served) (id : Nat) : h.Window id := by
  have hf := hs.feed id
  have hflows := hf.windowed.flows
  have hwindow : ∀ d ∈ (h.seats id).channel.subscription.flow,
      d ∈ (h.seats id).channel.window ∨ d ∈ (h.seats id).channel.subscription.offered :=
    fun d hd => List.mem_append.mp hd
  have hsub : (h.seats id).channel.window.Sublist (h.seats id).channel.subscription.flow :=
    List.sublist_append_left _ _
  refine ⟨hf.source, fun hid hdue => ?_, hsub.trans hflows.ordered,
    (hsub.trans hflows.ordered).nodup hflows.nodup, hflows.capacity, fun d hd => ?_,
    hf.windowed.offers, hf.windowed.oldest, fun call event hlock hid => ?_⟩
  · rw [← hf.fed hid, hdue, List.append_nil]
  · rcases hflows.delivered d hd with hd | hd
    · exact (hwindow d hd).imp_right Or.inl
    · rw [hf.windowed.dropped] at hd
      exact Or.inr (Or.inr (List.mem_map.mp hd))
  · have hdue : h.due id = [] := by rw [due, hlock]
    have hnewest : h.newest = some event := by rw [newest, hlock]
    have hfree : (h.seats id).channel.subscription.publishing = none := by
      by_contra hne
      have hcurrent := hf.busy.mpr hne
      rw [current, hlock] at hcurrent
      cases hcurrent
    have hlast := hf.fresh hid hdue event hnewest
    rw [Channel.events, List.getLast?_map, Option.map_eq_some_iff] at hlast
    obtain ⟨d, hd, hevent⟩ := hlast
    have hflow : (h.seats id).channel.subscription.flow = (h.seats id).channel.window := by
      rw [Subscription.flow, Subscription.offered_none hfree, List.append_nil]
      rfl
    refine ⟨d, ?_, hevent⟩
    rw [← hflow, hflows.newest, hd]

/-- **The buffer of every subscriber is a window on what is published, and a `Publish` never waits for
a subscriber**: the call with the lock unlocks after as many turns as it has work, whoever else takes
steps between them. -/
theorem subscriber_window (as : List (Action F)) : (∀ id, (run step new as).Window id) ∧
    ∀ call operation next, (run step new as).lock = some ⟨call, operation, next⟩ →
      ∀ bs, (run step new as).work ≤ bs.countP (Action.isTurn call) →
        (run step (run step new as) bs).Left call :=
  ⟨(served_run as).window, fun _ _ _ hlock bs hturns => left_run (served_run as) hlock bs hturns⟩

end Hub

end TinyProbe.Live
