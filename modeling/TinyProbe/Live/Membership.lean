import TinyProbe.Live.Channels

/-!
# The map of subscribers

A channel is in the map exactly when it is open and `Subscribe` has let it in, and nothing else is
ever closed or sent to, so the hub never panics. What holds of the map, the subscribers and the calls
whoever has the lock is `Roll`; what the call that has the lock relies on is `Locked`.
-/

namespace TinyProbe.Live.Hub

open Run

variable {F : Type}

/-! ## Steps at one subscriber -/

section Seats

variable {h : Hub F} {id id' : Nat} {seat : Seat F} {channel : Channel F}

theorem seats_setSeat :
    (h.setSeat id seat).seats id' = if id' = id then seat else h.seats id' :=
  Function.update_apply h.seats id seat id'

theorem seats_setSeat_self : (h.setSeat id seat).seats id = seat := by
  rw [seats_setSeat, if_pos rfl]

theorem seats_setSeat_ne (hne : id' ≠ id) : (h.setSeat id seat).seats id' = h.seats id' := by
  rw [seats_setSeat, if_neg hne]

/-- A close of an open channel does not panic. -/
theorem closeChannel_of_open (hopen : (h.seats id).channel.closed = false) :
    h.closeChannel id = h.setChannel id { (h.seats id).channel with closed := true } := by
  rw [closeChannel, if_neg (by rw [hopen]; exact Bool.false_ne_true)]

end Seats

/-! ## The invariant -/

/-- A subscriber, which is in the map or not. -/
structure Seat.Sound (seat : Seat F) (isMember : Prop) : Prop where
  member : isMember ↔ seat.channel.closed = false ∧ seat.stage = .admitted
  made : seat.stage = .made → seat.channel.closed = false
  refused : seat.stage = .refused → seat.channel.closed = true
  returned : seat.returned = true → seat.stage = .admitted ∨ seat.stage = .refused
  untouched : seat.stage ≠ .admitted → seat.channel.subscription = Subscription.initial

/-- The hub is closed and has closed every subscriber. -/
def Shut (h : Hub F) : Prop := h.closed = true ∧ h.subscribers = []

/-- What holds of the map, the subscribers and the calls. -/
structure Roll (h : Hub F) : Prop where
  nodup : h.subscribers.Nodup
  sound : ∀ id : Nat, (h.seats id).Sound (id ∈ h.subscribers)
  late : ∀ id : Nat, (h.seats id).late = true →
    h.closeReturned = true ∧ (h.seats id).stage ≠ .admitted
  absent : ∀ id : Nat, h.calls.length ≤ id → (h.seats id).stage = .absent
  made : ∀ call : Nat, h.calls[call]? = some (Pc.locking .subscribe) → (h.seats call).stage = .made
  answered : ∀ call : Nat, h.calls[call]? = some (Pc.returning .subscribe) →
    (h.seats call).stage = .admitted ∨ (h.seats call).stage = .refused
  closing : ∀ call : Nat, h.calls[call]? = some (Pc.returning .close) → h.Shut
  closed : h.closeReturned = true → h.Shut

/-- What the call that has the lock relies on. -/
def Held (h : Hub F) (operation : Operation F) : Section F → Prop
  | .offering event remaining current =>
    operation = .publish event ∧ h.closed = false ∧ (current.toList ++ remaining).Nodup ∧
      ∀ id ∈ current.toList ++ remaining, id ∈ h.subscribers
  | .closing remaining => operation = .close ∧ h.closed = true ∧ remaining.Perm h.subscribers
  | .done => (h.closed = true → h.subscribers = []) ∧ (operation = .close → h.closed = true)

/-- What holds of the lock. -/
def Locked (h : Hub F) : Prop :=
  match h.lock with
  | none => h.closed = true → h.subscribers = []
  | some holder => h.calls[holder.call]? = some Pc.locked ∧ h.Held holder.operation holder.next ∧
      (holder.operation = .subscribe →
        (h.seats holder.call).stage = .admitted ∨ (h.seats holder.call).stage = .refused)

structure Ruled (h : Hub F) : Prop where
  panicked : h.panicked = false
  roll : h.Roll
  locked : h.Locked

section Laws

variable {h : Hub F} {id call : Nat} {seat : Seat F} {pc pc' : Pc F} {operation : Operation F}

theorem Seat.sound_new : (Seat.new : Seat F).Sound False where
  member := ⟨False.elim, fun hmember => by cases hmember.2⟩
  made hstage := by cases hstage
  refused hstage := by cases hstage
  returned hreturned := by cases hreturned
  untouched _ := rfl

theorem ruled_new : Ruled (new : Hub F) where
  panicked := rfl
  roll := by
    refine ⟨List.nodup_nil, fun id => ?_, fun id hlate => ?_, fun _ _ => rfl, fun call hpc => ?_,
      fun call hpc => ?_, fun call hpc => ?_, fun hclosed => by cases hclosed⟩
    · have hiff : (id ∈ ([] : List Nat)) = False := eq_false List.not_mem_nil
      exact hiff ▸ Seat.sound_new
    · cases hlate
    · cases hpc
    · cases hpc
    · cases hpc
  locked hclosed := by cases hclosed

/-- One subscriber changes, and the map as far as it has it. -/
theorem Roll.change (hr : h.Roll) {subscribers : List Nat} (hnodup : subscribers.Nodup)
    (hsame : ∀ id' ≠ id, id' ∈ subscribers ↔ id' ∈ h.subscribers)
    (hempty : h.Shut → subscribers = []) (hsound : seat.Sound (id ∈ subscribers))
    (hlate : seat.late = true → h.closeReturned = true ∧ seat.stage ≠ .admitted)
    (hmade : h.calls[id]? = some (.locking .subscribe) → seat.stage = .made)
    (hanswered : h.calls[id]? = some (.returning .subscribe) →
      seat.stage = .admitted ∨ seat.stage = .refused)
    (hid : h.calls.length ≤ id → seat.stage = .absent) :
    ({ h with subscribers }.setSeat id seat).Roll := by
  have hseat : ∀ id' : Nat, ({ h with subscribers }.setSeat id seat).seats id' =
      if id' = id then seat else h.seats id' := fun id' => seats_setSeat
  refine ⟨hnodup, fun id' => ?_, fun id' hl => ?_, fun id' hle => ?_, fun call hpc => ?_,
    fun call hpc => ?_, fun call hpc => ?_, fun hret => ?_⟩
  · rw [hseat]
    split
    next heq => exact heq ▸ hsound
    next hne =>
      have hold := hr.sound id'
      rwa [← propext (hsame id' hne)] at hold
  · rw [hseat] at hl ⊢
    split at hl
    next heq => rw [if_pos heq]; exact hlate hl
    next hne => rw [if_neg hne]; exact hr.late id' hl
  · rw [hseat]
    split
    next heq => exact hid (heq ▸ hle)
    next => exact hr.absent id' hle
  · rw [hseat]
    split
    next heq => exact hmade (heq ▸ hpc)
    next => exact hr.made call hpc
  · rw [hseat]
    split
    next heq => exact hanswered (heq ▸ hpc)
    next => exact hr.answered call hpc
  · exact ⟨(hr.closing call hpc).1, hempty (hr.closing call hpc)⟩
  · exact ⟨(hr.closed hret).1, hempty (hr.closed hret)⟩

/-- Another step at a subscriber that leaves it in its stage. -/
theorem Roll.setSeat (hr : h.Roll) (hsound : seat.Sound (id ∈ h.subscribers))
    (hstage : seat.stage = (h.seats id).stage) (hlate : seat.late = (h.seats id).late) :
    (h.setSeat id seat).Roll :=
  hr.change hr.nodup (fun _ _ => Iff.rfl) And.right hsound
    (fun hl => hstage ▸ hr.late id (hlate ▸ hl)) (fun hpc => hstage.trans (hr.made id hpc))
    (fun hpc => hstage ▸ hr.answered id hpc) fun hle => hstage.trans (hr.absent id hle)

/-- A call gets to another place. -/
theorem Roll.goto (hr : h.Roll)
    (hmade : pc = .locking .subscribe → (h.seats call).stage = .made)
    (hanswered : pc = .returning .subscribe →
      (h.seats call).stage = .admitted ∨ (h.seats call).stage = .refused)
    (hclosing : pc = .returning .close → h.Shut) : (h.goto call pc).Roll := by
  have hcalls : ∀ {c : Nat} {pc' : Pc F}, (h.calls.set call pc)[c]? = some pc' →
      h.calls[c]? = some pc' ∨ (c = call ∧ pc' = pc) := by
    intro c pc' hpc
    rw [List.getElem?_set] at hpc
    split at hpc
    next heq =>
      split at hpc
      next => exact Or.inr ⟨heq.symm, (Option.some.inj hpc).symm⟩
      next => cases hpc
    next => exact Or.inl hpc
  refine ⟨hr.nodup, hr.sound, hr.late, fun id' hle => hr.absent id' ?_, fun c hpc => ?_,
    fun c hpc => ?_, fun c hpc => ?_, hr.closed⟩
  · exact List.length_set.symm.trans_le hle
  · rcases hcalls hpc with hpc | ⟨rfl, heq⟩
    · exact hr.made c hpc
    · exact hmade heq.symm
  · rcases hcalls hpc with hpc | ⟨rfl, heq⟩
    · exact hr.answered c hpc
    · exact hanswered heq.symm
  · rcases hcalls hpc with hpc | ⟨rfl, heq⟩
    · exact hr.closing c hpc
    · exact hclosing heq.symm

/-- A call begins that is none of `Subscribe`. -/
theorem Roll.spawn (hr : h.Roll) (hmade : pc ≠ .locking .subscribe)
    (hanswered : pc ≠ .returning .subscribe) (hclosing : pc ≠ .returning .close) :
    (h.spawn pc).Roll := by
  have hcalls : ∀ {c : Nat} {pc' : Pc F}, (h.calls ++ [pc])[c]? = some pc' →
      h.calls[c]? = some pc' ∨ pc' = pc := by
    intro c pc' hpc
    rw [List.getElem?_append] at hpc
    split at hpc
    next => exact Or.inl hpc
    next => exact Or.inr (List.mem_singleton.mp (List.mem_of_getElem? hpc))
  refine ⟨hr.nodup, hr.sound, hr.late, fun id' hle => hr.absent id' ?_, fun c hpc => ?_,
    fun c hpc => ?_, fun c hpc => ?_, hr.closed⟩
  · exact Nat.le_trans (by simp only [Hub.spawn, List.length_append]; omega) hle
  · exact (hcalls hpc).elim (hr.made c) fun heq => absurd heq.symm hmade
  · exact (hcalls hpc).elim (hr.answered c) fun heq => absurd heq.symm hanswered
  · exact (hcalls hpc).elim (hr.closing c) fun heq => absurd heq.symm hclosing

/-- What is not the map, the subscribers or the calls. -/
theorem Roll.of_eq {h' : Hub F} (hr : h.Roll) (hclosed : h.closed = true → h'.closed = true)
    (hsubscribers : h'.subscribers = h.subscribers) (hseats : h'.seats = h.seats)
    (hcalls : h'.calls = h.calls) (hreturned : h'.closeReturned = h.closeReturned) : h'.Roll where
  nodup := hsubscribers ▸ hr.nodup
  sound id := by
    rw [hsubscribers, hseats]
    exact hr.sound id
  late id hlate := by
    rw [hseats] at hlate ⊢
    rw [hreturned]
    exact hr.late id hlate
  absent id hle := by
    rw [hseats]
    exact hr.absent id (hcalls ▸ hle)
  made call hpc := by
    rw [hseats]
    exact hr.made call (hcalls ▸ hpc)
  answered call hpc := by
    rw [hseats]
    exact hr.answered call (hcalls ▸ hpc)
  closing call hpc := by
    obtain ⟨hshut, hempty⟩ := hr.closing call (hcalls ▸ hpc)
    exact ⟨hclosed hshut, hsubscribers.trans hempty⟩
  closed hret := by
    obtain ⟨hshut, hempty⟩ := hr.closed (hreturned ▸ hret)
    exact ⟨hclosed hshut, hsubscribers.trans hempty⟩

theorem Roll.hold (hr : h.Roll) (call : Nat) (operation : Operation F) (next : Section F) :
    (h.hold call operation next).Roll := hr.of_eq id rfl rfl rfl rfl

/-- `Close` returns. -/
theorem Roll.closeReturned (hr : h.Roll) (hshut : h.Shut) :
    Roll { h with closeReturned := true } :=
  ⟨hr.nodup, hr.sound, fun id hlate => ⟨rfl, (hr.late id hlate).2⟩, hr.absent, hr.made, hr.answered,
    hr.closing, fun _ => hshut⟩

theorem lt_of_getElem? {l : List (Pc F)} {i : Nat} (hpc : l[i]? = some pc) : i < l.length :=
  (List.getElem?_eq_some_iff.mp hpc).1

/-- `Subscribe` makes a channel. -/
theorem Roll.subscribe (hr : h.Roll) :
    ((h.setSeat h.calls.length { Seat.new with stage := .made, late := h.closeReturned }).spawn
      (.locking .subscribe)).Roll := by
  have hnew := hr.absent h.calls.length (Nat.le_refl _)
  have hmember : h.calls.length ∉ h.subscribers := by
    intro hmem
    rw [((hr.sound h.calls.length).member.mp hmem).2] at hnew
    cases hnew
  have hseat : ∀ id : Nat, id ≠ h.calls.length →
      (h.setSeat h.calls.length { Seat.new with stage := .made, late := h.closeReturned }).seats id =
        h.seats id := fun id hne => seats_setSeat_ne hne
  have hcalls : ∀ {c : Nat} {pc : Pc F}, (h.calls ++ [Pc.locking .subscribe])[c]? = some pc →
      (h.calls[c]? = some pc ∧ c ≠ h.calls.length) ∨
        (c = h.calls.length ∧ pc = .locking .subscribe) := by
    intro c pc hpc
    rw [List.getElem?_append] at hpc
    split at hpc
    next hlt => exact Or.inl ⟨hpc, Nat.ne_of_lt hlt⟩
    next hle =>
      have hlt := lt_of_getElem? hpc
      rw [List.length_singleton] at hlt
      exact Or.inr ⟨by omega, List.mem_singleton.mp (List.mem_of_getElem? hpc)⟩
  refine ⟨hr.nodup, fun id => ?_, fun id hlate => ?_, fun id hle => ?_, fun c hpc => ?_,
    fun c hpc => ?_, fun c hpc => ?_, hr.closed⟩
  · show ((h.setSeat _ _).seats id).Sound _
    by_cases heq : id = h.calls.length
    · rw [heq, seats_setSeat_self]
      exact ⟨⟨fun hmem => absurd hmem hmember, fun hadmitted => by cases hadmitted.2⟩, fun _ => rfl,
        (fun hrefused => by cases hrefused), (fun hreturned => by cases hreturned), fun _ => rfl⟩
    · rw [hseat id heq]
      exact hr.sound id
  · change ((h.setSeat _ _).seats id).late = true at hlate
    show h.closeReturned = true ∧ ((h.setSeat _ _).seats id).stage ≠ _
    by_cases heq : id = h.calls.length
    · rw [heq, seats_setSeat_self] at hlate ⊢
      exact ⟨hlate, fun hstage => by cases hstage⟩
    · rw [hseat id heq] at hlate ⊢
      exact hr.late id hlate
  · have hlength : (h.calls ++ [Pc.locking (F := F) .subscribe]).length = h.calls.length + 1 :=
      List.length_append
    have hlt : (h.calls ++ [Pc.locking (F := F) .subscribe]).length ≤ id := hle
    rw [hlength] at hlt
    exact (congrArg Seat.stage (hseat id (Nat.ne_of_gt hlt))).trans
      (hr.absent id (Nat.le_of_succ_le hlt))
  · show ((h.setSeat _ _).seats c).stage = _
    rcases hcalls hpc with ⟨hpc, hne⟩ | ⟨rfl, _⟩
    · rw [hseat c hne]
      exact hr.made c hpc
    · rw [seats_setSeat_self]
  · show ((h.setSeat _ _).seats c).stage = _ ∨ ((h.setSeat _ _).seats c).stage = _
    rcases hcalls hpc with ⟨hpc, hne⟩ | ⟨_, heq⟩
    · rw [hseat c hne]
      exact hr.answered c hpc
    · cases heq
  · rcases hcalls hpc with ⟨hpc, _⟩ | ⟨_, heq⟩
    · exact hr.closing c hpc
    · cases heq

/-! ## Without the lock -/

/-- A step of another call leaves what the call with the lock relies on. -/
theorem Locked.of_eq {h' : Hub F} (hl : h.Locked) (hlock : h'.lock = h.lock)
    (hclosed : h'.closed = h.closed) (hsubscribers : h'.subscribers = h.subscribers)
    (hcalls : ∀ c : Nat, h.calls[c]? = some .locked → h'.calls[c]? = some .locked)
    (hseats : ∀ id, h.calls[id]? = some .locked → (h'.seats id).stage = (h.seats id).stage) :
    h'.Locked := by
  unfold Locked at hl ⊢
  rw [hlock]
  cases hholder : h.lock with
  | none =>
    rw [hholder] at hl
    show h'.closed = true → h'.subscribers = []
    rw [hclosed, hsubscribers]
    exact hl
  | some holder =>
    rw [hholder] at hl
    obtain ⟨hpc, hheld, hanswered⟩ := hl
    refine ⟨hcalls _ hpc, ?_, hseats _ hpc ▸ hanswered⟩
    unfold Held at hheld ⊢
    rw [hclosed, hsubscribers]
    exact hheld

/-- A call that has not got the lock goes on. -/
theorem Locked.goto (hl : h.Locked) (hpc : h.calls[call]? = some pc) (hne : pc ≠ .locked) :
    (h.goto call pc').Locked := by
  refine hl.of_eq rfl rfl rfl (fun c hc => ?_) fun _ _ => rfl
  have hother : call ≠ c := by
    rintro rfl
    rw [hpc] at hc
    exact hne (Option.some.inj hc)
  show (h.calls.set call pc')[c]? = _
  rw [List.getElem?_set_ne hother, hc]

theorem Locked.setSeat (hl : h.Locked) (hstage : seat.stage = (h.seats id).stage) :
    (h.setSeat id seat).Locked := by
  refine hl.of_eq rfl rfl rfl (fun _ hc => hc) fun id' _ => ?_
  rw [seats_setSeat]
  split
  next heq => rw [heq, hstage]
  next => rfl

theorem Locked.spawn (hl : h.Locked) : (h.spawn pc).Locked := by
  refine hl.of_eq rfl rfl rfl (fun c hc => ?_) fun _ _ => rfl
  show (h.calls ++ [pc])[c]? = _
  rw [List.getElem?_append_left (lt_of_getElem? hc), hc]

theorem Ruled.spawn (hr : h.Ruled) (hmade : pc ≠ .locking .subscribe)
    (hanswered : pc ≠ .returning .subscribe) (hclosing : pc ≠ .returning .close) :
    (h.spawn pc).Ruled :=
  ⟨hr.panicked, hr.roll.spawn hmade hanswered hclosing, hr.locked.spawn⟩

theorem Ruled.subscribe (hr : h.Ruled) :
    ((h.setSeat h.calls.length { Seat.new with stage := .made, late := h.closeReturned }).spawn
      (.locking .subscribe)).Ruled := by
  refine ⟨hr.panicked, hr.roll.subscribe, hr.locked.of_eq rfl rfl rfl (fun c hc => ?_) fun id hid => ?_⟩
  · show (h.calls ++ [Pc.locking .subscribe])[c]? = _
    rw [List.getElem?_append_left (lt_of_getElem? hc), hc]
  · exact congrArg Seat.stage (seats_setSeat_ne (Nat.ne_of_lt (lt_of_getElem? hid)))

/-- `once.Do` lets the first caller in. -/
theorem Ruled.once (hr : h.Ruled) (hpc : h.calls[call]? = some (.once id)) :
    ((h.setSeat id { h.seats id with once := .running }).goto call (.locking (.cancel id))).Ruled := by
  have hs := hr.roll.sound id
  refine ⟨hr.panicked, Roll.goto ?_ (fun heq => by cases heq) (fun heq => by cases heq)
    (fun heq => by cases heq), Locked.goto (hr.locked.setSeat rfl) hpc (fun heq => by cases heq)⟩
  exact hr.roll.setSeat ⟨hs.member, hs.made, hs.refused, hs.returned, hs.untouched⟩ rfl rfl

/-- A call that leaves the hub alone. -/
theorem Ruled.goto (hr : h.Ruled) (hpc : h.calls[call]? = some pc) (hne : pc ≠ .locked)
    (hmade : pc' ≠ .locking .subscribe) (hanswered : pc' ≠ .returning .subscribe)
    (hclosing : pc' ≠ .returning .close) : (h.goto call pc').Ruled :=
  ⟨hr.panicked, hr.roll.goto (fun heq => absurd heq hmade) (fun heq => absurd heq hanswered)
    fun heq => absurd heq hclosing, hr.locked.goto hpc hne⟩

/-- **A call returns.** -/
theorem Ruled.finish (hr : h.Ruled) (hpc : h.calls[call]? = some (.returning operation)) :
    (h.finish call operation).Ruled := by
  have hne : (.returning operation : Pc F) ≠ .locked := fun heq => by cases heq
  cases operation with
  | subscribe =>
    have hs := hr.roll.sound call
    have hstage := hr.roll.answered call hpc
    refine Ruled.goto ⟨hr.panicked, ?_, hr.locked.setSeat rfl⟩ hpc hne
      (fun heq => by cases heq) (fun heq => by cases heq) (fun heq => by cases heq)
    exact hr.roll.setSeat ⟨hs.member, hs.made, hs.refused, fun _ => hstage, hs.untouched⟩ rfl rfl
  | cancel id =>
    have hs := hr.roll.sound id
    refine Ruled.goto ⟨hr.panicked, ?_, hr.locked.setSeat rfl⟩ hpc
      hne (fun heq => by cases heq) (fun heq => by cases heq) (fun heq => by cases heq)
    exact hr.roll.setSeat ⟨hs.member, hs.made, hs.refused, hs.returned, hs.untouched⟩ rfl rfl
  | publish event =>
    exact hr.goto hpc hne (fun heq => by cases heq) (fun heq => by cases heq)
      (fun heq => by cases heq)
  | close =>
    refine Ruled.goto
      ⟨hr.panicked, hr.roll.closeReturned (hr.roll.closing call hpc), ?_⟩ hpc hne
      (fun heq => by cases heq) (fun heq => by cases heq) (fun heq => by cases heq)
    exact hr.locked.of_eq rfl rfl rfl (fun _ => id) fun _ _ => rfl

/-- What a step does to the subscription of a subscriber in the map. -/
theorem Seat.Sound.step {isMember : Prop} (hs : seat.Sound isMember) (a : Subscription.Action F)
    (hadmitted : seat.stage = .admitted) :
    { seat with channel := seat.channel.step a }.Sound isMember where
  member := by
    show isMember ↔ (seat.channel.step a).closed = false ∧ _
    rw [Channel.step_closed]
    exact hs.member
  made hstage := absurd (hadmitted.symm.trans hstage) (fun heq => by cases heq)
  refused hstage := absurd (hadmitted.symm.trans hstage) (fun heq => by cases heq)
  returned := hs.returned
  untouched hne := absurd hadmitted hne

/-- **A receive.** -/
theorem Ruled.receive (hr : h.Ruled) (hreturned : (h.seats id).returned = true) :
    (h.setChannel id ((h.seats id).channel.step .receive)).Ruled := by
  have hs := hr.roll.sound id
  rcases hs.returned hreturned with hadmitted | hrefused
  · exact ⟨hr.panicked, hr.roll.setSeat (hs.step .receive hadmitted) rfl rfl,
      hr.locked.setSeat rfl⟩
  · -- the channel of a refused subscriber is empty
    have hempty : (h.seats id).channel.step .receive = (h.seats id).channel := by
      apply Channel.step_receive_nil
      rw [hs.untouched fun heq => by rw [hrefused] at heq; cases heq]
      rfl
    rw [hempty]
    exact ⟨hr.panicked, hr.roll.setSeat hs rfl rfl, hr.locked.setSeat rfl⟩

/-! ## With the lock -/

theorem calls_goto (hpc : h.calls[call]? = some pc) :
    (h.goto call pc').calls[call]? = some pc' := List.getElem?_set_self (lt_of_getElem? hpc)

/-- A subscriber in the map is open, so it can be closed. -/
theorem Roll.remove_eq (hr : h.Roll) (hid : id ∈ h.subscribers) :
    h.remove id = { h with subscribers := h.subscribers.erase id }.setChannel id
      { (h.seats id).channel with closed := true } :=
  closeChannel_of_open ((hr.sound id).member.mp hid).1

/-- A subscriber leaves the map, and its channel is closed. -/
theorem Roll.erase (hr : h.Roll) (hid : id ∈ h.subscribers) :
    ({ h with subscribers := h.subscribers.erase id }.setChannel id
      { (h.seats id).channel with closed := true }).Roll := by
  have hs := hr.sound id
  obtain ⟨hopen, hadmitted⟩ := hs.member.mp hid
  refine hr.change (hr.nodup.erase id) (fun id' hne => List.mem_erase_of_ne hne)
    (fun hshut => by rw [hshut.2, List.erase_nil]) ⟨?_, ?_, fun _ => rfl, hs.returned, ?_⟩
    (hr.late id) (hr.made id) (hr.answered id) (hr.absent id)
  · exact ⟨fun hmem => absurd hmem hr.nodup.not_mem_erase, fun hfalse => by cases hfalse.1⟩
  · exact fun hstage => absurd (hadmitted.symm.trans hstage) (fun h => by cases h)
  · exact fun hne => absurd hadmitted hne

/-- The call has got the lock and comes to its first step. -/
theorem Ruled.take (h' : Hub F) (hroll : (h'.goto call .locked).Roll)
    (hpanicked : h'.panicked = false) (hlt : call < h'.calls.length) {next : Section F}
    (hheld : h'.Held operation next)
    (hstage : operation = .subscribe →
      (h'.seats call).stage = .admitted ∨ (h'.seats call).stage = .refused) :
    ((h'.hold call operation next).goto call .locked).Ruled :=
  ⟨hpanicked, hroll.hold call operation next, List.getElem?_set_self hlt, hheld, hstage⟩

theorem Ruled.enter_subscribe (hr : h.Ruled) (hlock : h.lock = none)
    (hpc : h.calls[call]? = some (.locking .subscribe)) (order : List Nat) :
    ((h.enter call .subscribe order).goto call .locked).Ruled := by
  have hs := hr.roll.sound call
  have hmade := hr.roll.made call hpc
  have hopen := hs.made hmade
  have hfree := hr.locked
  rw [Locked, hlock] at hfree
  have hgoto : (h.goto call .locked).Roll := hr.roll.goto (fun heq => by cases heq)
    (fun heq => by cases heq) (fun heq => by cases heq)
  have hgone : (h.goto call .locked).calls[call]? = some Pc.locked := calls_goto hpc
  have hlocked : ∀ {P : Prop} {pc : Pc F}, pc ≠ .locked →
      (h.goto call .locked).calls[call]? = some pc → P := by
    intro P pc hne hpc'
    rw [hgone] at hpc'
    exact absurd (Option.some.inj hpc').symm hne
  have hmember : call ∉ h.subscribers := by
    intro hmem
    have hadmitted := (hs.member.mp hmem).2
    rw [hmade] at hadmitted
    cases hadmitted
  have hlength : ¬ (h.goto call .locked).calls.length ≤ call :=
    Nat.not_le_of_gt (lt_of_getElem? hgone)
  simp only [enter]
  split
  next hclosed =>
    have heq : (h.closeChannel call).settle call .refused = h.setSeat call
        { h.seats call with
          channel := { (h.seats call).channel with closed := true }
          stage := .refused
          since := h.published.length } := by
      rw [closeChannel_of_open hopen]
      simp only [settle, setChannel, Hub.setSeat, Function.update_self, Function.update_idem]
    rw [heq]
    refine Ruled.take _ ?_ ?_ ?_ ?_ ?_
    · refine hgoto.change hgoto.nodup (fun _ _ => Iff.rfl) And.right
        ⟨?_, (fun h => by cases h), fun _ => rfl, fun _ => Or.inr rfl, fun _ => ?_⟩
        (fun hl => ⟨(hr.roll.late call hl).1, fun h => by cases h⟩)
        (hlocked fun h => by cases h) (hlocked fun h => by cases h) (fun hle => absurd hle hlength)
      · exact ⟨fun hmem => absurd hmem hmember, fun hfalse => by cases hfalse.1⟩
      · exact hs.untouched fun heq => by rw [hmade] at heq; cases heq
    · exact hr.panicked
    · exact lt_of_getElem? hpc
    · exact ⟨fun _ => hfree hclosed, fun h => by cases h⟩
    · exact fun _ => Or.inr (congrArg Seat.stage seats_setSeat_self)
  next hnot =>
    refine Ruled.take _ ?_ ?_ ?_ ?_ ?_
    · refine hgoto.change ?_ (fun id hne => ?_) (fun hshut => absurd hshut.1 hnot)
        ⟨?_, (fun h => by cases h), (fun h => by cases h), fun _ => Or.inl rfl,
          fun hne => absurd rfl hne⟩
        (fun hl => absurd (hr.roll.closed (hr.roll.late call hl).1).1 hnot)
        (hlocked fun h => by cases h) (hlocked fun h => by cases h) (fun hle => absurd hle hlength)
      · refine List.nodup_append.mpr ⟨hr.roll.nodup, List.nodup_singleton _, fun id hid id' hid' => ?_⟩
        rw [List.mem_singleton.mp hid']
        rintro rfl
        exact hmember hid
      · exact List.mem_append.trans (or_iff_left fun hid => hne (List.mem_singleton.mp hid))
      · exact ⟨fun _ => ⟨hopen, rfl⟩, fun _ => List.mem_append_right _ List.mem_cons_self⟩
    · exact hr.panicked
    · exact lt_of_getElem? hpc
    · exact ⟨fun hclosed => absurd hclosed hnot, fun h => by cases h⟩
    · exact fun _ => Or.inl (congrArg Seat.stage seats_setSeat_self)

/-- **A call gets the lock.** -/
theorem Ruled.enter (hr : h.Ruled) (hlock : h.lock = none)
    (hpc : h.calls[call]? = some (.locking operation)) {order : List Nat}
    (horder : order.Perm h.subscribers) :
    ((h.enter call operation order).goto call .locked).Ruled := by
  have hfree := hr.locked
  rw [Locked, hlock] at hfree
  have hgoto : (h.goto call .locked).Roll := hr.roll.goto (fun heq => by cases heq)
    (fun heq => by cases heq) (fun heq => by cases heq)
  have hlt := lt_of_getElem? hpc
  cases operation with
  | subscribe => exact hr.enter_subscribe hlock hpc order
  | cancel id =>
    simp only [Hub.enter]
    split
    next hid =>
      rw [hr.roll.remove_eq hid]
      refine Ruled.take _ ?_ ?_ ?_ ?_ ?_
      · exact hgoto.erase hid
      · exact hr.panicked
      · exact hlt
      · refine ⟨fun hclosed => ?_, fun h => by cases h⟩
        rw [hfree hclosed] at hid
        cases hid
      · exact fun h => by cases h
    next =>
      exact Ruled.take h hgoto hr.panicked hlt ⟨hfree, fun h => by cases h⟩ fun h => by cases h
  | publish event =>
    simp only [Hub.enter]
    split
    next =>
      exact Ruled.take h hgoto hr.panicked hlt ⟨hfree, fun h => by cases h⟩ fun h => by cases h
    next hnot =>
      refine Ruled.take { h with published := h.published ++ [event] }
        (hgoto.of_eq id rfl rfl rfl rfl) hr.panicked hlt ?_ fun h => by cases h
      refine ⟨rfl, Bool.eq_false_iff.mpr hnot, ?_, fun id hid => horder.mem_iff.mp hid⟩
      exact horder.nodup_iff.mpr hr.roll.nodup
  | close =>
    simp only [Hub.enter]
    split
    next hclosed =>
      exact Ruled.take h hgoto hr.panicked hlt ⟨hfree, fun _ => hclosed⟩ fun h => by cases h
    next hnot =>
      exact Ruled.take { h with closed := true } (hgoto.of_eq (fun _ => rfl) rfl rfl rfl rfl)
        hr.panicked hlt ⟨rfl, rfl, horder⟩ fun h => by cases h

/-- The lock is kept for another step. -/
theorem Ruled.keep (h' : Hub F) (hroll : h'.Roll) (hpanicked : h'.panicked = false)
    (hpc : h'.calls[call]? = some .locked) {next : Section F} (hheld : h'.Held operation next)
    (hstage : operation = .subscribe →
      (h'.seats call).stage = .admitted ∨ (h'.seats call).stage = .refused) :
    (h'.hold call operation next).Ruled :=
  ⟨hpanicked, hroll.hold call operation next, hpc, hheld, hstage⟩

/-- A step at the channel of a subscriber in the map. -/
theorem Roll.channel (hr : h.Roll) (hid : id ∈ h.subscribers) (a : Subscription.Action F) :
    (h.setChannel id ((h.seats id).channel.step a)).Roll :=
  hr.setSeat ((hr.sound id).step a ((hr.sound id).member.mp hid).2) rfl rfl

/-- **A step under the lock.** -/
theorem Ruled.proceed (hr : h.Ruled) {next : Section F}
    (hlock : h.lock = some ⟨call, operation, next⟩) :
    (h.proceed call operation next).Ruled := by
  have hlocked := hr.locked
  rw [Locked, hlock] at hlocked
  obtain ⟨hpc, hheld, hstage⟩ := hlocked
  dsimp only at hpc hheld hstage
  cases next with
  | offering event remaining current =>
    obtain ⟨rfl, hopen, hnodup, hsub⟩ := hheld
    cases current with
    | some id =>
      have hid := hsub id (List.mem_append_left _ List.mem_cons_self)
      have hchannel := ((hr.roll.sound id).member.mp hid).1
      simp only [Hub.proceed, offer, hchannel, Bool.false_and, Bool.false_eq_true, if_false]
      refine Ruled.keep _ (hr.roll.channel hid .proceed) hr.panicked hpc ?_ fun h => by cases h
      split
      next => exact ⟨rfl, hopen, hnodup, hsub⟩
      next =>
        exact ⟨rfl, hopen, (List.nodup_cons.mp hnodup).2, fun id' hid' =>
          hsub id' (List.mem_append_right _ hid')⟩
    | none =>
      cases remaining with
      | nil =>
        refine Ruled.keep h hr.roll hr.panicked hpc ⟨fun hclosed => ?_, fun h => by cases h⟩
          fun h => by cases h
        rw [hopen] at hclosed
        cases hclosed
      | cons id remaining =>
        have hid := hsub id List.mem_cons_self
        exact Ruled.keep _ (hr.roll.channel hid (.publish event)) hr.panicked hpc
          ⟨rfl, hopen, hnodup, hsub⟩ fun h => by cases h
  | closing remaining =>
    obtain ⟨rfl, hclosed, hperm⟩ := hheld
    cases remaining with
    | nil =>
      exact Ruled.keep h hr.roll hr.panicked hpc ⟨fun _ => hperm.nil_eq.symm, fun _ => hclosed⟩
        fun h => by cases h
    | cons id remaining =>
      have hid := hperm.mem_iff.mp List.mem_cons_self
      simp only [Hub.proceed]
      rw [hr.roll.remove_eq hid]
      refine Ruled.keep _ (hr.roll.erase hid) hr.panicked hpc ⟨rfl, hclosed, ?_⟩ fun h => by cases h
      have herase := hperm.erase id
      rwa [List.erase_cons_head] at herase
  | done =>
    obtain ⟨hempty, hclose⟩ := hheld
    refine ⟨hr.panicked, ?_, hempty⟩
    exact Roll.goto (h := { h with lock := none })
      (hr.roll.of_eq (fun hclosed => hclosed) rfl rfl rfl rfl)
      (fun heq => by cases heq) (fun heq => by cases heq; exact hstage rfl)
      (fun heq => by cases heq; exact ⟨hclose rfl, hempty (hclose rfl)⟩)

theorem Ruled.advance (hr : h.Ruled) (call : Nat) (order : List Nat) :
    (h.advance call order).Ruled := by
  unfold Hub.advance
  split
  next => exact hr
  next => exact hr
  next id hpc =>
    split
    next => exact hr.once hpc
    next => exact hr
    next =>
      exact hr.goto hpc (fun h => by cases h) (fun h => by cases h) (fun h => by cases h)
        (fun h => by cases h)
  next operation hpc =>
    split
    next => exact hr
    next hlock =>
      split
      next horder => exact hr.enter hlock hpc (List.isPerm_iff.mp horder)
      next => exact hr
  next hpc =>
    split
    next => exact hr
    next holder hlock =>
      split
      next hcall =>
        subst hcall
        exact hr.proceed hlock
      next => exact hr
  next operation hpc => exact hr.finish hpc

/-- **One step.** -/
theorem Ruled.step (hr : h.Ruled) (a : Action F) : (h.step a).Ruled := by
  unfold Hub.step
  split
  next => exact hr
  next =>
    split
    next => exact hr.subscribe
    next id =>
      split
      next =>
        split
        next => exact hr.spawn (fun h => by cases h) (fun h => by cases h) (fun h => by cases h)
        next => exact hr.spawn (fun h => by cases h) (fun h => by cases h) (fun h => by cases h)
        next => exact hr
      next => exact hr
    next => exact hr.spawn (fun h => by cases h) (fun h => by cases h) (fun h => by cases h)
    next => exact hr.spawn (fun h => by cases h) (fun h => by cases h) (fun h => by cases h)
    next => exact hr.advance _ _
    next id =>
      split
      next hreturned => exact hr.receive hreturned
      next => exact hr

theorem ruled_run (as : List (Action F)) : (run Hub.step new as).Ruled :=
  run_invariant (fun _ a hr => hr.step a) ruled_new as

end Laws

/-! ## What never happens -/

/-- A channel is in the map exactly when it is open and `Subscribe` has let it in, which is all that
`Subscribe` returns but for those it returns closed, and nothing has panicked: no event was sent on a
closed channel, and no channel closed twice. Once a `Close` has
returned, every channel that `Subscribe` has let in or returned is closed, and a `Subscribe` called
after that returns an empty closed channel with a cancel function that does nothing. -/
structure Safe (h : Hub F) : Prop where
  panicked : h.panicked = false
  members : ∀ id, id ∈ h.subscribers ↔
    (h.seats id).channel.closed = false ∧ (h.seats id).stage = .admitted
  returned : ∀ id, (h.seats id).returned = true →
    (id ∈ h.subscribers ↔ (h.seats id).channel.closed = false)
  closed : h.closeReturned = true → ∀ id,
    (h.seats id).stage = .admitted ∨ (h.seats id).returned = true →
      (h.seats id).channel.closed = true
  late : ∀ id, (h.seats id).late = true → (h.seats id).returned = true →
    (h.seats id).channel.closed = true ∧ (h.seats id).channel.window = [] ∧
      h.step (.cancel id) = h.spawn .returned

/-- **The hub never panics on a channel**, whatever the calls and their order. In every state no
event was sent on a closed channel and none was closed twice, the map has the open channels of the
subscribers, and once a `Close` has returned every channel is closed, those of later calls of
`Subscribe` too. -/
theorem hub_safe (as : List (Action F)) : (run step new as).Safe := by
  have hr := ruled_run as
  generalize run step new as = h at hr
  have hclosed : h.closeReturned = true → ∀ id,
      (h.seats id).stage = .admitted ∨ (h.seats id).returned = true →
        (h.seats id).channel.closed = true := by
    intro hret id hid
    have hs := hr.roll.sound id
    have hmember : id ∉ h.subscribers := by
      rw [(hr.roll.closed hret).2]
      exact List.not_mem_nil
    have hstage := hid.elim Or.inl hs.returned
    rcases hstage with hadmitted | hrefused
    · exact eq_true_of_ne_false fun hopen => hmember (hs.member.mpr ⟨hopen, hadmitted⟩)
    · exact hs.refused hrefused
  refine ⟨hr.panicked, fun id => (hr.roll.sound id).member, fun id hreturned => ?_, hclosed,
    fun id hlate hreturned => ?_⟩
  · have hs := hr.roll.sound id
    rw [hs.member, and_iff_left_iff_imp]
    intro hopen
    refine (hs.returned hreturned).resolve_right fun hrefused => ?_
    rw [hs.refused hrefused] at hopen
    cases hopen
  have hs := hr.roll.sound id
  obtain ⟨hret, hne⟩ := hr.roll.late id hlate
  have hrefused : (h.seats id).stage = .refused := (hs.returned hreturned).resolve_left hne
  refine ⟨hclosed hret id (Or.inr hreturned), ?_, ?_⟩
  · rw [Channel.window, hs.untouched hne]
    rfl
  · rw [step, if_neg (by rw [hr.panicked]; exact Bool.false_ne_true)]
    simp only [hreturned, hrefused, if_true]

end TinyProbe.Live.Hub
