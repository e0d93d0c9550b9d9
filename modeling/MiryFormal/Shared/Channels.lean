import Mathlib.Data.List.Perm.Basic
import Mathlib.Tactic.Common

/-!
# Tagged requests on a connection

Requests travel to a server and its answers travel back, both in the order in which they were
sent. A request carries a tag that its answer repeats. What is settled on a connection is the state
that the server will have reached once it has carried out everything that is on its way to it.
-/

namespace MiryFormal

set_option autoImplicit false

universe u v w

/-- What is on its way in both directions. -/
structure Channel (ρ : Type u) (ω : Type v) where
  requests : List (Nat × ρ) := []
  answers : List (Nat × ω) := []

namespace Channel
variable {ρ : Type u} {ω : Type v} {σ : Type w}
variable {channel : Channel ρ ω} {tag next : Nat} {request : ρ} {answer : ω}
variable {requests : List (Nat × ρ)} {answers : List (Nat × ω)}

def tags (channel : Channel ρ ω) : List Nat :=
  channel.requests.map Prod.fst ++ channel.answers.map Prod.fst

def send (channel : Channel ρ ω) (tag : Nat) (request : ρ) : Channel ρ ω :=
  { channel with requests := channel.requests ++ [(tag, request)] }

/-- The tags in flight are distinct and all below the next one to be given out. -/
structure Fresh (next : Nat) (channel : Channel ρ ω) : Prop where
  nodup : channel.tags.Nodup
  lt : ∀ tag ∈ channel.tags, tag < next

theorem mem_tags_send :
    tag ∈ (channel.send next request).tags ↔ tag ∈ channel.tags ∨ tag = next := by
  unfold tags send
  simp only [List.map_append, List.map_cons, List.map_nil, List.mem_append, List.mem_singleton]
  tauto

theorem Fresh.send (h : channel.Fresh next) (request : ρ) :
    (channel.send next request).Fresh (next + 1) := by
  constructor
  · have hnew : next ∉ channel.tags := fun hm => Nat.lt_irrefl next (h.lt next hm)
    have hperm : (channel.send next request).tags.Perm (next :: channel.tags) := by
      unfold tags Channel.send
      dsimp only
      rw [List.map_append, List.append_assoc]
      exact List.perm_middle
    exact hperm.nodup_iff.mpr (List.nodup_cons.mpr ⟨hnew, h.nodup⟩)
  · intro tag hm
    rcases mem_tags_send.mp hm with hm | rfl
    · exact Nat.lt_succ_of_lt (h.lt tag hm)
    · exact Nat.lt_succ_self tag

theorem tags_served (request : ρ) (answer : ω) :
    (Channel.mk requests (answers ++ [(tag, answer)])).tags.Perm
      (Channel.mk ((tag, request) :: requests) answers).tags := by
  unfold tags
  simp only [List.map_append, List.map_cons, List.map_nil, ← List.append_assoc]
  exact List.perm_append_comm

theorem Fresh.served (h : (Channel.mk ((tag, request) :: requests) answers).Fresh next)
    (answer : ω) : (Channel.mk requests (answers ++ [(tag, answer)])).Fresh next := by
  have hperm : (Channel.mk requests (answers ++ [(tag, answer)])).tags.Perm _ :=
    tags_served request answer
  exact ⟨hperm.nodup_iff.mpr h.nodup, fun other hm => h.lt other (hperm.mem_iff.mp hm)⟩

theorem Fresh.received (h : (Channel.mk requests ((tag, answer) :: answers)).Fresh next) :
    (Channel.mk requests answers).Fresh next ∧ tag ∉ (Channel.mk requests answers).tags := by
  have hperm : (Channel.mk requests ((tag, answer) :: answers)).tags.Perm
      (tag :: (Channel.mk requests answers).tags) := List.perm_middle
  have hnodup := List.nodup_cons.mp (hperm.nodup_iff.mp h.nodup)
  refine ⟨⟨hnodup.2, fun other hm => ?_⟩, hnodup.1⟩
  exact h.lt other (hperm.mem_iff.mpr (List.mem_cons_of_mem tag hm))

/-! What the server comes to. -/

variable (effect : σ → ρ → σ)

def settled (state : σ) (channel : Channel ρ ω) : σ :=
  (channel.requests.map Prod.snd).foldl effect state

theorem settled_send (state : σ) :
    settled effect state (channel.send tag request) =
      effect (settled effect state channel) request := by
  unfold settled Channel.send
  rw [List.map_append, List.foldl_append]
  rfl

theorem settled_idle (state : σ)
    (h : ∀ entry ∈ channel.requests, ∀ state, effect state entry.2 = state) :
    settled effect state channel = state := by
  unfold settled
  generalize channel.requests = pending at h
  induction pending with
  | nil => rfl
  | cons entry rest ih =>
    rw [List.map_cons, List.foldl_cons, h entry List.mem_cons_self]
    exact ih fun other hm => h other (List.mem_cons_of_mem entry hm)

/-- A relation between states that every request keeps holds between what they come to. -/
theorem settled_rel {R : σ → σ → Prop}
    (hkeeps : ∀ request {state state' : σ}, R state state' →
      R (effect state request) (effect state' request))
    {state state' : σ} (h : R state state') :
    R (settled effect state channel) (settled effect state' channel) := by
  unfold settled
  generalize channel.requests.map Prod.snd = pending
  induction pending generalizing state state' with
  | nil => exact h
  | cons request rest ih => exact ih (hkeeps request h)

end Channel

end MiryFormal
