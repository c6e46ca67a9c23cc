import TinyProbe.Live.Hub

/-!
# The channel of a subscriber

What `Publish` loses of a channel, with the `Publish` that loses it: a `Channel` is a subscription
with the record of its discards. The deliveries received and buffered are a window on those
published (`Windowed`): in their order, none twice, at most `subscriberCapacity` of them buffered. A
delivery is missing only because one `Publish`, which discards no other, found the channel full, and
then it is the oldest that the subscriber had left there.

The hub closes channels, and a send on a closed one or a second close would panic; `closed` is for
the hub.
-/

namespace TinyProbe.Live

open Run

variable {F : Type}

/-- A delivery that a `Publish` took out of the channel: what this `Publish` was offering, and what
it found in the channel. -/
structure Discard (F : Type) where
  offered : Delivery F
  lost : Delivery F
  found : List (Delivery F)

/-- A channel and the records of its discards; `found` is what the last `Publish` to reach it found in
it. -/
structure Channel (F : Type) where
  subscription : Subscription F
  found : List (Delivery F)
  discards : List (Discard F)
  closed : Bool

namespace Channel

/-- `make(chan Event, subscriberCapacity)`. -/
def new : Channel F :=
  { subscription := Subscription.initial, found := [], discards := [], closed := false }

/-- What the next step of `Publish` takes out. -/
def taken (c : Channel F) : List (Discard F) :=
  match c.subscription.publishing with
  | some (offered, .draining) =>
    (c.subscription.channel.take 1).map fun lost => { offered, lost, found := c.found }
  | _ => []

/-- What the next step of `Publish` finds. -/
def finds (c : Channel F) : List (Delivery F) :=
  match c.subscription.publishing with
  | some (_, .sending) => c.subscription.channel
  | _ => c.found

/-- A step at the channel, with its records. -/
def step (c : Channel F) (a : Subscription.Action F) : Channel F :=
  match a with
  | .proceed =>
    { c with
      subscription := c.subscription.step .proceed
      found := c.finds
      discards := c.discards ++ c.taken }
  | .publish event => { c with subscription := c.subscription.step (.publish event) }
  | .receive => { c with subscription := c.subscription.step .receive }

/-- The deliveries received, and those buffered. -/
def window (c : Channel F) : List (Delivery F) := c.subscription.received ++ c.subscription.channel

/-- What is discarded was in a full channel, and the subscriber had received all that is older. -/
structure Oldest (c : Channel F) (x : Discard F) : Prop where
  full : x.found.length = subscriberCapacity
  oldest : ∃ older newer, x.found = older ++ x.lost :: newer ∧
    ∀ d ∈ older, d ∈ c.subscription.received

/-- What `Publish` does to a channel. -/
structure Windowed (c : Channel F) : Prop where
  flows : c.subscription.Flows
  dropped : c.subscription.dropped = c.discards.map Discard.lost
  oldest : ∀ x ∈ c.discards, c.Oldest x
  /-- The subscriber takes from the front of what `Publish` has found. -/
  draining : ∀ d, c.subscription.publishing = some (d, .draining) →
    c.found.length = subscriberCapacity ∧
      ∃ older, c.found = older ++ c.subscription.channel ∧
        ∀ d ∈ older, d ∈ c.subscription.received
  offers : c.discards.Pairwise fun x y => x.offered.number < y.offered.number
  offered : ∀ x ∈ c.discards, x.offered.number < c.subscription.published.length
  current : ∀ d offer, c.subscription.publishing = some (d, offer) →
    d.number + 1 = c.subscription.published.length
  fresh : ∀ d offer, c.subscription.publishing = some (d, offer) → offer ≠ .resending →
    ∀ x ∈ c.discards, x.offered.number < d.number

section Laws

variable {c c' : Channel F} {d : Delivery F}

/-- No step of the subscription closes the channel. -/
@[simp] theorem step_closed (a : Subscription.Action F) : (c.step a).closed = c.closed := by
  cases a <;> rfl

/-- Nothing was published at a new channel, and nothing is discarded. -/
theorem windowed_new : Windowed (new : Channel F) where
  flows := Subscription.flows_initial
  dropped := rfl
  oldest x h := absurd h List.not_mem_nil
  draining d h := by cases h
  offers := List.Pairwise.nil
  offered x h := absurd h List.not_mem_nil
  current d offer h := by cases h
  fresh d offer h := by cases h

/-- Closing a channel leaves what is in it. -/
theorem Windowed.close (h : c.Windowed) : Windowed { c with closed := true } :=
  ⟨h.flows, h.dropped, fun x hx => ⟨(h.oldest x hx).full, (h.oldest x hx).oldest⟩, h.draining,
    h.offers, h.offered, h.current, h.fresh⟩

/-- What was the oldest stays so when more has been received. -/
theorem Oldest.mono {x : Discard F} (h : c.Oldest x)
    (hreceived : ∀ d ∈ c.subscription.received, d ∈ c'.subscription.received) : c'.Oldest x := by
  obtain ⟨older, newer, hfound, holder⟩ := h.oldest
  exact ⟨h.full, older, newer, hfound, fun d hd => hreceived d (holder d hd)⟩

/-- A call of `Publish` offers its event, numbered by those before. -/
theorem step_publish (hfree : c.subscription.publishing = none) (event : Event F) :
    c.step (.publish event) =
      { c with
        subscription :=
          { c.subscription with
            publishing := some (⟨c.subscription.published.length, event⟩, .sending)
            published := c.subscription.published ++ [⟨c.subscription.published.length, event⟩] } } := by
  simp only [step, Subscription.step, hfree]

/-- A new `Publish` offers the event after the last. -/
theorem Windowed.publish (h : c.Windowed) (hfree : c.subscription.publishing = none)
    (event : Event F) : (c.step (.publish event)).Windowed := by
  have hflows : (c.step (.publish event)).subscription.Flows := h.flows.step (.publish event)
  rw [step_publish hfree] at hflows ⊢
  have hlength : (c.subscription.published ++ [(⟨c.subscription.published.length, event⟩ :
      Delivery F)]).length = c.subscription.published.length + 1 := List.length_append
  refine ⟨hflows, h.dropped, fun x hx => (h.oldest x hx).mono fun _ hd => hd, ?_, h.offers, ?_, ?_,
    ?_⟩
  · intro d hd
    cases hd
  · intro x hx
    exact hlength ▸ Nat.lt_succ_of_lt (h.offered x hx)
  · intro d offer hd
    cases hd
    exact hlength.symm
  · intro d offer hd _ x hx
    cases hd
    exact h.offered x hx

/-- A send: nothing is taken out, and the `Publish` is done with the channel. -/
theorem Windowed.send (h : c.Windowed) {found : List (Delivery F)}
    (hflows : Subscription.Flows { c.subscription with
      channel := c.subscription.channel ++ [d], publishing := none }) :
    Windowed { c with
      subscription := { c.subscription with
        channel := c.subscription.channel ++ [d], publishing := none }
      found } := by
  refine ⟨hflows, h.dropped, fun x hx => (h.oldest x hx).mono fun _ hd => hd, ?_, h.offers,
    h.offered, ?_, ?_⟩
  · intro d hd
    cases hd
  · intro d offer hd
    cases hd
  · intro d offer hd
    cases hd

/-- The first send goes into the channel, or finds it full. -/
theorem step_sending (hpublishing : c.subscription.publishing = some (d, .sending)) :
    c.step .proceed =
      if c.subscription.channel.length < subscriberCapacity then
        { c with
          subscription := { c.subscription with
            channel := c.subscription.channel ++ [d], publishing := none }
          found := c.subscription.channel }
      else
        { c with
          subscription := { c.subscription with
            publishing := some (d, .draining)
            overtaken := c.subscription.overtaken ++ c.subscription.channel }
          found := c.subscription.channel } := by
  simp only [step, taken, finds, Subscription.step, hpublishing, Subscription.proceed,
    List.append_nil]
  split
  next => rfl
  next => rfl

/-- The first `select`. -/
theorem Windowed.sending (h : c.Windowed)
    (hpublishing : c.subscription.publishing = some (d, .sending)) :
    (c.step .proceed).Windowed := by
  have hflows : (c.step .proceed).subscription.Flows := h.flows.step .proceed
  rw [step_sending hpublishing] at hflows ⊢
  split at hflows
  next hroom =>
    rw [if_pos hroom]
    exact h.send hflows
  next hfull =>
    rw [if_neg hfull]
    refine ⟨hflows, h.dropped, fun x hx => (h.oldest x hx).mono fun _ hd => hd, ?_, h.offers,
      h.offered, ?_, ?_⟩
    · intro _ _
      exact ⟨Nat.le_antisymm h.flows.capacity (Nat.le_of_not_lt hfull), [], rfl,
        fun d hd => absurd hd List.not_mem_nil⟩
    · intro d' offer hd
      cases hd
      exact h.current d .sending hpublishing
    · intro d' offer hd _
      cases hd
      exact h.fresh d .sending hpublishing (fun heq => by cases heq)

/-- The receive takes the first of the channel, and discards it. -/
theorem step_draining (hpublishing : c.subscription.publishing = some (d, .draining)) :
    c.step .proceed =
      { c with
        subscription := { c.subscription with
          channel := c.subscription.channel.tail
          dropped := c.subscription.dropped ++ c.subscription.channel.take 1
          publishing := some (d, .resending) }
        discards := c.discards ++
          (c.subscription.channel.take 1).map fun lost => ⟨d, lost, c.found⟩ } := by
  simp only [step, taken, finds, Subscription.step, hpublishing, Subscription.proceed]

/-- The receive between the two sends: it takes the front, if there is one left. -/
theorem Windowed.drain (h : c.Windowed)
    (hpublishing : c.subscription.publishing = some (d, .draining)) :
    (c.step .proceed).Windowed := by
  have hflows : (c.step .proceed).subscription.Flows := h.flows.step .proceed
  obtain ⟨hfull, older, hfound, holder⟩ := h.draining d hpublishing
  have hcurrent := h.current d .draining hpublishing
  have hfresh := h.fresh d .draining hpublishing (fun heq => by cases heq)
  rw [step_draining hpublishing] at hflows ⊢
  have hmem : ∀ x ∈ (c.subscription.channel.take 1).map (fun lost => (⟨d, lost, c.found⟩ : Discard F)),
      ∃ lost rest, c.subscription.channel = lost :: rest ∧ x = ⟨d, lost, c.found⟩ := by
    intro x hx
    obtain ⟨lost, hlost, rfl⟩ := List.mem_map.mp hx
    cases hchannel : c.subscription.channel with
    | nil =>
      rw [hchannel] at hlost
      exact absurd hlost List.not_mem_nil
    | cons first rest =>
      rw [hchannel] at hlost
      exact ⟨first, rest, rfl, by rw [List.mem_singleton.mp hlost]⟩
  refine ⟨hflows, ?_, ?_, ?_, ?_, ?_, ?_, ?_⟩
  · rw [List.map_append, ← h.dropped, List.map_map]
    exact congrArg _ (List.map_id _).symm
  · intro x hx
    rcases List.mem_append.mp hx with hx | hx
    · exact (h.oldest x hx).mono fun _ hd => hd
    · obtain ⟨lost, rest, hchannel, rfl⟩ := hmem x hx
      exact ⟨hfull, older, rest, by rw [hfound, hchannel], holder⟩
  · intro d' hd
    cases hd
  · refine List.pairwise_append.mpr ⟨h.offers, ?_, fun x hx y hy => ?_⟩
    · cases c.subscription.channel with
      | nil => exact List.Pairwise.nil
      | cons first rest => exact List.pairwise_singleton _ _
    · obtain ⟨lost, rest, _, rfl⟩ := hmem y hy
      exact hfresh x hx
  · intro x hx
    rcases List.mem_append.mp hx with hx | hx
    · exact h.offered x hx
    · obtain ⟨lost, rest, _, rfl⟩ := hmem x hx
      exact Nat.lt_of_lt_of_eq (Nat.lt_succ_self _) hcurrent
  · intro d' offer hd
    cases hd
    exact hcurrent
  · intro d' offer hd hne
    cases hd
    exact absurd rfl hne

/-- The second send goes into the channel when there is room. -/
theorem step_resending (hpublishing : c.subscription.publishing = some (d, .resending))
    (hroom : c.subscription.channel.length < subscriberCapacity) :
    c.step .proceed =
      { c with
        subscription := { c.subscription with
          channel := c.subscription.channel ++ [d], publishing := none }
        found := c.found } := by
  simp only [step, taken, finds, Subscription.step, hpublishing, Subscription.proceed, if_pos hroom,
    List.append_nil]

/-- The second send finds room. -/
theorem Windowed.resending (h : c.Windowed)
    (hpublishing : c.subscription.publishing = some (d, .resending)) :
    (c.step .proceed).Windowed := by
  have hflows : (c.step .proceed).subscription.Flows := h.flows.step .proceed
  rw [step_resending hpublishing (h.flows.resending d hpublishing)] at hflows ⊢
  exact h.send hflows

/-- A receive takes the first of the channel. -/
theorem step_receive {first : Delivery F} {rest : List (Delivery F)}
    (hchannel : c.subscription.channel = first :: rest) :
    c.step .receive =
      { c with
        subscription := { c.subscription with
          channel := rest, received := c.subscription.received ++ [first] } } := by
  simp only [step, Subscription.step, hchannel]

/-- There is nothing to receive from an empty channel. -/
theorem step_receive_nil (hchannel : c.subscription.channel = []) : c.step .receive = c := by
  simp only [step, Subscription.step, hchannel]

/-- A receive moves the first of the window to what was received. -/
theorem Windowed.receive (h : c.Windowed) : (c.step .receive).Windowed := by
  have hflows : (c.step .receive).subscription.Flows := h.flows.step .receive
  cases hchannel : c.subscription.channel with
  | nil =>
    rw [step_receive_nil hchannel]
    exact h
  | cons first rest =>
    rw [step_receive hchannel] at hflows ⊢
    have hreceived : ∀ d ∈ c.subscription.received, d ∈ c.subscription.received ++ [first] :=
      fun d hd => List.mem_append_left _ hd
    refine ⟨hflows, h.dropped, fun x hx => (h.oldest x hx).mono hreceived, ?_, h.offers, h.offered,
      h.current, h.fresh⟩
    intro d hd
    obtain ⟨hfull, older, hfound, holder⟩ := h.draining d hd
    refine ⟨hfull, older ++ [first], ?_, fun d hd => ?_⟩
    · rw [hfound, hchannel, List.append_assoc, List.singleton_append]
    · rcases List.mem_append.mp hd with hd | hd
      · exact hreceived d (holder d hd)
      · exact List.mem_append_right _ hd

/-- Without a `Publish` under way there is nothing to proceed with. -/
theorem step_proceed_none (hfree : c.subscription.publishing = none) : c.step .proceed = c := by
  simp only [step, taken, finds, Subscription.step, hfree, List.append_nil]

/-- While one is under way no other begins. -/
theorem step_publish_some {under : Delivery F × Offer}
    (hpublishing : c.subscription.publishing = some under) (event : Event F) :
    c.step (.publish event) = c := by
  simp only [step, Subscription.step, hpublishing]

/-- **Whatever happens at the channel.** -/
theorem Windowed.step (h : c.Windowed) (a : Subscription.Action F) : (c.step a).Windowed := by
  cases a with
  | publish event =>
    cases hpublishing : c.subscription.publishing with
    | none => exact h.publish hpublishing event
    | some under =>
      rw [step_publish_some hpublishing]
      exact h
  | proceed =>
    cases hpublishing : c.subscription.publishing with
    | none =>
      rw [step_proceed_none hpublishing]
      exact h
    | some under =>
      obtain ⟨d, offer⟩ := under
      cases offer with
      | sending => exact h.sending hpublishing
      | draining => exact h.drain hpublishing
      | resending => exact h.resending hpublishing
  | receive => exact h.receive

end Laws

end Channel

end TinyProbe.Live
