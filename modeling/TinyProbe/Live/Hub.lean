import TinyProbe.Lib.Run
import TinyProbe.Lib.Stream
import TinyProbe.Live.Snapshot
import Mathlib.Data.List.Nodup

/-!
# The hub and one subscriber

`Hub.Publish` holds the hub's lock and offers the event to each subscriber's channel in turn: it
sends if there is room; if there is none it takes the oldest event out, should the subscriber not
have taken it meanwhile, and tries to send again. The subscriber receives without any lock, so its
receives come between these steps. Subscribers share nothing, and the model has one of them.

A delivery is one published event with a number of its own. `received`, `published`, `dropped` and
`overtaken` are records of the run: `dropped` are the deliveries that a `Publish` has taken out, and
`overtaken` those that stood in the channel when a `Publish` found it full, whether it then took them
out or the subscriber was faster.
-/

namespace TinyProbe.Live

open Run
open TinyProbe.Stream

variable {F : Type}

/-- `subscriberCapacity`. -/
def subscriberCapacity : Nat := 8

/-- One event published, with its number. -/
structure Delivery (F : Type) where
  number : Nat
  event : Event F
deriving DecidableEq

/-- The server the event is about. -/
def Delivery.serverID (d : Delivery F) : Int := d.event.snapshot.serverID

/-- The step of `Publish` that comes next. -/
inductive Offer where
  /-- The first `select`. -/
  | sending
  /-- The receive, as the channel was full. -/
  | draining
  /-- The second send. -/
  | resending
deriving DecidableEq

/-- A subscriber's channel, the `Publish` that holds the lock, and the records of the run. -/
structure Subscription (F : Type) where
  channel : List (Delivery F)
  publishing : Option (Delivery F × Offer)
  received : List (Delivery F)
  published : List (Delivery F)
  dropped : List (Delivery F)
  overtaken : List (Delivery F)

namespace Subscription

/-- One step: a call of `Publish`, the next step of the one under way, or a receive. -/
inductive Action (F : Type) where
  | publish (event : Event F)
  | proceed
  | receive

/-- `Subscribe`. -/
def initial : Subscription F :=
  { channel := [], publishing := none, received := [], published := [], dropped := []
    overtaken := [] }

/-- The step of `Publish`. -/
def proceed (s : Subscription F) (d : Delivery F) : Offer → Subscription F
  | .sending =>
    if s.channel.length < subscriberCapacity then
      { s with channel := s.channel ++ [d], publishing := none }
    else
      { s with publishing := some (d, .draining), overtaken := s.overtaken ++ s.channel }
  | .draining =>
    { s with
      channel := s.channel.tail
      dropped := s.dropped ++ s.channel.take 1
      publishing := some (d, .resending) }
  | .resending =>
    if s.channel.length < subscriberCapacity then
      { s with channel := s.channel ++ [d], publishing := none }
    else { s with publishing := none }

def step (s : Subscription F) : Action F → Subscription F
  | .publish event =>
    match s.publishing with
    | some _ => s
    | none =>
      let d := ⟨s.published.length, event⟩
      { s with publishing := some (d, .sending), published := s.published ++ [d] }
  | .proceed =>
    match s.publishing with
    | none => s
    | some (d, offer) => s.proceed d offer
  | .receive =>
    match s.channel with
    | [] => s
    | d :: channel => { s with channel, received := s.received ++ [d] }

/-- The subscriber has emptied its channel, and no `Publish` is under way. -/
def CaughtUp (s : Subscription F) : Prop := s.channel = [] ∧ s.publishing = none

/-- The last event received of every server is the last published of it. -/
def KnowsLatest (s : Subscription F) : Prop :=
  ∀ server d, lastOf Delivery.serverID server s.published = some d →
    lastOf Delivery.serverID server s.received = some d

/-- The same, but for an event that was dropped, and none is dropped but those that a later
`Publish` met in a full channel. -/
structure KnowsKept (s : Subscription F) : Prop where
  latest : ∀ server d, lastOf Delivery.serverID server s.published = some d → d ∉ s.dropped →
    lastOf Delivery.serverID server s.received = some d
  full : ∀ d ∈ s.dropped, d ∈ s.overtaken
  newest : s.received.getLast? = s.published.getLast?
  ordered : s.received.Sublist s.published

/-- The delivery `Publish` is about. -/
def offered (s : Subscription F) : List (Delivery F) := (s.publishing.map Prod.fst).toList

/-- What is received, waiting and on offer. -/
def flow (s : Subscription F) : List (Delivery F) := s.received ++ s.channel ++ s.offered

/-- What is received, waiting and on offer is what was published, in order, without what was
dropped, and only what a `Publish` met in a full channel is dropped. -/
structure Flows (s : Subscription F) : Prop where
  ordered : s.flow.Sublist s.published
  newest : s.flow.getLast? = s.published.getLast?
  numbers : s.published.map Delivery.number = List.range s.published.length
  delivered : ∀ d ∈ s.published, d ∈ s.flow ∨ d ∈ s.dropped
  full : ∀ d ∈ s.dropped, d ∈ s.overtaken
  /-- Between finding the channel full and sending again it only gets emptier. -/
  draining : ∀ d, s.publishing = some (d, .draining) → ∀ d ∈ s.channel, d ∈ s.overtaken
  resending : ∀ d, s.publishing = some (d, .resending) → s.channel.length < subscriberCapacity
  capacity : s.channel.length ≤ subscriberCapacity

section Laws

variable {s s' : Subscription F} {d : Delivery F}

/-- Nothing was published, so nothing has flowed. -/
theorem flows_initial : Flows (initial : Subscription F) where
  ordered := List.Sublist.refl _
  newest := rfl
  numbers := rfl
  delivered d h := absurd h List.not_mem_nil
  full d h := absurd h List.not_mem_nil
  draining d h := by cases h
  resending d h := by cases h
  capacity := Nat.zero_le _

/-- Without a `Publish` under way nothing is offered. -/
theorem offered_none (h : s.publishing = none) : s.offered = [] := by
  rw [offered, h]
  rfl

/-- What a `Publish` offers is the delivery it was called with. -/
theorem offered_some {offer : Offer} (h : s.publishing = some (d, offer)) : s.offered = [d] := by
  rw [offered, h]
  rfl

/-- A step that only hands deliveries on. -/
theorem Flows.hand (hs : s.Flows) (hflow : s'.flow = s.flow) (hpublished : s'.published = s.published)
    (hdropped : s'.dropped = s.dropped) (hovertaken : ∀ d ∈ s.overtaken, d ∈ s'.overtaken)
    (hdraining : ∀ d, s'.publishing = some (d, .draining) → ∀ d ∈ s'.channel, d ∈ s'.overtaken)
    (hresending : ∀ d, s'.publishing = some (d, .resending) →
      s'.channel.length < subscriberCapacity)
    (hcapacity : s'.channel.length ≤ subscriberCapacity) : s'.Flows where
  ordered := by rw [hflow, hpublished]; exact hs.ordered
  newest := by rw [hflow, hpublished]; exact hs.newest
  numbers := by rw [hpublished]; exact hs.numbers
  delivered d hd := by
    rw [hpublished] at hd
    rw [hflow, hdropped]
    exact hs.delivered d hd
  full d hd := hovertaken d (hs.full d (hdropped ▸ hd))
  draining := hdraining
  resending := hresending
  capacity := hcapacity

/-- A send that finds room. -/
theorem Flows.send (hs : s.Flows) {offer : Offer} (hpublishing : s.publishing = some (d, offer))
    (hroom : s.channel.length < subscriberCapacity) :
    Flows { s with channel := s.channel ++ [d], publishing := none } := by
  refine hs.hand ?_ rfl rfl (fun _ h => h) ?_ ?_ ?_
  · rw [flow, flow, offered_some hpublishing, offered_none rfl, List.append_nil, List.append_assoc]
  · intro _ h
    cases h
  · intro _ h
    cases h
  · rw [List.length_append, List.length_singleton]
    exact hroom

/-- A new `Publish` offers what comes last. -/
theorem Flows.publish (hs : s.Flows) (hfree : s.publishing = none) (event : Event F) :
    (s.step (.publish event)).Flows := by
  rw [step, hfree]
  have hflow : s.flow = s.received ++ s.channel := by
    rw [flow, offered_none hfree, List.append_nil]
  have hordered := hs.ordered
  rw [hflow] at hordered
  refine ⟨hordered.append_right _, ?_, ?_, ?_, hs.full, ?_, ?_, hs.capacity⟩
  · exact List.getLast?_concat.trans List.getLast?_concat.symm
  · rw [List.map_append, hs.numbers, List.length_append, List.length_singleton, List.range_succ]
    rfl
  · intro d hd
    rcases List.mem_append.mp hd with hd | hd
    · refine (hs.delivered d hd).imp_left fun hd => ?_
      rw [hflow] at hd
      exact List.mem_append_left _ hd
    · exact Or.inl (List.mem_append_right _ hd)
  · intro _ h
    cases h
  · intro _ h
    cases h

/-- What is offered enters the channel last, or is dropped; a full channel loses its first. -/
theorem Flows.proceed (hs : s.Flows) {offer : Offer} (hpublishing : s.publishing = some (d, offer)) :
    (s.proceed d offer).Flows := by
  cases offer with
  | sending =>
    simp only [Subscription.proceed]
    split
    next hroom => exact hs.send hpublishing hroom
    next =>
      refine hs.hand ?_ rfl rfl (fun _ h => List.mem_append_left _ h) ?_ ?_ hs.capacity
      · rw [flow, flow, offered_some hpublishing]
        rfl
      · intro _ _ d hd
        exact List.mem_append_right _ hd
      · intro _ h
        cases h
  | draining =>
    have hflow : s.flow = s.received ++ s.channel ++ [d] := by
      rw [flow, offered_some hpublishing]
    have hsub : (s.received ++ s.channel.tail ++ [d]).Sublist s.flow := by
      rw [hflow]
      exact ((List.tail_sublist _).append_left _).append_right _
    have hchannel : s.channel.take 1 ++ s.channel.tail = s.channel := by
      rw [← List.drop_one, List.take_append_drop]
    refine ⟨hsub.trans hs.ordered, ?_, hs.numbers, ?_, ?_, ?_, ?_, ?_⟩
    · have hnewest := hs.newest
      rw [hflow] at hnewest
      exact List.getLast?_concat.trans (List.getLast?_concat.symm.trans hnewest)
    · intro d' hd'
      show d' ∈ s.received ++ s.channel.tail ++ [d] ∨ d' ∈ s.dropped ++ s.channel.take 1
      have hd' := hs.delivered d' hd'
      rw [hflow, ← hchannel] at hd'
      simp only [List.mem_append] at hd' ⊢
      tauto
    · intro d' hd'
      rcases List.mem_append.mp hd' with hd' | hd'
      · exact hs.full d' hd'
      · exact hs.draining d hpublishing d' (List.mem_of_mem_take hd')
    · intro _ h
      cases h
    · intro _ _
      show s.channel.tail.length < subscriberCapacity
      rw [List.length_tail]
      have := hs.capacity
      unfold subscriberCapacity at this ⊢
      omega
    · show s.channel.tail.length ≤ subscriberCapacity
      rw [List.length_tail]
      exact Nat.le_trans (Nat.sub_le _ _) hs.capacity
  | resending =>
    have hroom := hs.resending d hpublishing
    simp only [Subscription.proceed]
    rw [if_pos hroom]
    exact hs.send hpublishing hroom

/-- A receive takes the first of the channel. -/
theorem Flows.receive (hs : s.Flows) : (s.step .receive).Flows := by
  rw [step]
  split
  next => exact hs
  next d channel hchannel =>
    refine hs.hand ?_ rfl rfl (fun _ h => h) ?_ ?_ ?_
    · show s.received ++ [d] ++ channel ++ s.offered = s.received ++ s.channel ++ s.offered
      rw [hchannel, List.append_assoc s.received, List.singleton_append]
    · intro d' hpublishing d'' hd''
      exact hs.draining d' hpublishing d'' (hchannel ▸ List.mem_cons_of_mem _ hd'')
    · intro d' hpublishing
      have := hs.resending d' hpublishing
      rw [hchannel, List.length_cons] at this
      exact Nat.lt_of_succ_lt this
    · have := hs.capacity
      rw [hchannel, List.length_cons] at this
      exact Nat.le_of_succ_le this

/-- Every step keeps the order of what was published. -/
theorem Flows.step (hs : s.Flows) (a : Action F) : (s.step a).Flows := by
  cases a with
  | publish event =>
    cases hpublishing : s.publishing with
    | none => exact hs.publish hpublishing event
    | some under =>
      rw [Subscription.step, hpublishing]
      exact hs
  | proceed =>
    cases hpublishing : s.publishing with
    | none =>
      rw [Subscription.step, hpublishing]
      exact hs
    | some under =>
      rw [Subscription.step, hpublishing]
      exact hs.proceed hpublishing
  | receive => exact hs.receive

/-- Every event is published once. -/
theorem Flows.nodup (hs : s.Flows) : s.published.Nodup := by
  have hnumbers : (s.published.map Delivery.number).Nodup := by
    rw [hs.numbers]
    exact List.nodup_range
  exact List.Nodup.of_map _ hnumbers

/-- **A subscriber that catches up knows the latest state of every server but for an event that was
dropped**, in every order of the steps, and only what a later `Publish` met in a full channel is
dropped. What the subscriber has received is in the order of publication, and ends with the last
event published. -/
theorem knowsKept (as : List (Action F)) (h : (run Subscription.step initial as).CaughtUp) :
    (run Subscription.step initial as).KnowsKept := by
  have hs : (run Subscription.step initial as).Flows :=
    run_invariant (fun _ a hs => hs.step a) flows_initial as
  generalize run Subscription.step initial as = s at h hs
  have hflow : s.flow = s.received := by
    rw [flow, offered_none h.2, h.1, List.append_nil, List.append_nil]
  refine ⟨?_, hs.full, hflow ▸ hs.newest, hflow ▸ hs.ordered⟩
  intro server d hlast hkept
  have hd : d ∈ s.received := by
    rcases hs.delivered d (lastOf_mem hlast).1 with hd | hd
    · exact hflow ▸ hd
    · exact absurd hd hkept
  exact lastOf_of_sublist (hflow ▸ hs.ordered) hs.nodup hlast hd

end Laws

/-- An event about a server. -/
def about (serverID : Int) : Event Exact :=
  ⟨.offline, ⟨serverID, "", false, .ofUnix 0, "", .ofCPU (.fin 0)⟩⟩

/-- A call of `Publish` that the subscriber does not interrupt. -/
def publishes (serverID : Int) : List (Action Exact) :=
  [.publish (about serverID), .proceed, .proceed, .proceed]

/-- One event of server 1, eight of server 2, and then the subscriber empties its channel. -/
def lagging : List (Action Exact) :=
  publishes 1 ++ (List.replicate 8 (publishes 2)).flatten ++ List.replicate 8 .receive

/-- A subscriber that keeps up. -/
theorem prompt_knowsKept :
    (run step initial (publishes 1 ++ [.receive] ++ publishes 2 ++ [.receive])).KnowsKept :=
  knowsKept _ ⟨by decide +kernel, by decide +kernel⟩

/-- **The only event of a quiet server is lost to eight events of a busy one.** -/
theorem lagging_not_knowsLatest :
    (run step initial lagging).CaughtUp ∧ ¬ (run step initial lagging).KnowsLatest := by
  have hpublished : lastOf Delivery.serverID 1 (run step initial lagging).published =
      some ⟨0, about 1⟩ := by decide +kernel
  have hreceived : lastOf Delivery.serverID 1 (run step initial lagging).received = none := by
    decide +kernel
  refine ⟨⟨by decide +kernel, by decide +kernel⟩, ?_⟩
  intro h
  have := h 1 _ hpublished
  rw [hreceived] at this
  cases this

end Subscription

end TinyProbe.Live
