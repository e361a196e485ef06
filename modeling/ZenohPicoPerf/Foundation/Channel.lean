import Mathlib.Algebra.Order.Group.Multiset
import Mathlib.Data.List.Perm.Basic
import Mathlib.Logic.Relation

/-!
# A lossy transport that does not duplicate

The messages in flight on a channel are a list.  The transport may deliver or
drop any of them at any time, so messages are delayed, reordered and lost, but
each is taken out when it is delivered.

A relay is a channel out, an echo, and a channel back.  Every message is at
one place at a time, so nothing is delivered more often than it was sent.
-/

namespace ZenohPicoPerf.Foundation.Channel

variable {M : Type*}

/-- Take message `i` out of a channel. -/
def receive (ms : List M) (i : Nat) : Option (M × List M) :=
  (ms[i]?).map fun m => (m, ms.eraseIdx i)

theorem receive_perm {ms rest : List M} {i : Nat} {m : M}
    (h : receive ms i = some (m, rest)) : (m :: rest).Perm ms := by
  obtain ⟨x, hx, hpair⟩ := Option.map_eq_some_iff.mp h
  obtain ⟨hlt, hget⟩ := List.getElem?_eq_some_iff.mp hx
  obtain ⟨rfl, rfl⟩ := Prod.mk.inj hpair
  rw [← hget]
  exact List.getElem_cons_eraseIdx_perm hlt

/-- What holds of all messages in flight holds of the one that is taken out
and of those that stay. -/
theorem receive_forall {P : M → Prop} {ms rest : List M} {i : Nat} {m : M}
    (h : receive ms i = some (m, rest)) (hall : ∀ x ∈ ms, P x) :
    P m ∧ ∀ x ∈ rest, P x := by
  have hperm := receive_perm h
  refine ⟨hall m (hperm.subset (by simp)), ?_⟩
  intro x hx
  exact hall x (hperm.subset (by simp [hx]))

theorem receive_isSome {ms : List M} {i : Nat} (h : i < ms.length) :
    ∃ m rest, receive ms i = some (m, rest) :=
  ⟨ms[i], ms.eraseIdx i, by rw [receive, List.getElem?_eq_getElem h]; rfl⟩

/-! ## Relays -/

/-- Everything that was sent, what is in flight in either direction, and what
came back. -/
structure Relay (M : Type*) where
  sent : List M
  outbound : List M
  inbound : List M
  delivered : List M

def Relay.empty : Relay M :=
  { sent := [], outbound := [], inbound := [], delivered := [] }

inductive Step : Relay M → Relay M → Prop
  | send (r : Relay M) (m : M) :
      Step r { r with sent := r.sent ++ [m], outbound := r.outbound ++ [m] }
  | echo (r : Relay M) (m : M) (rest : List M)
      (h : (m :: rest).Perm r.outbound) :
      Step r { r with outbound := rest, inbound := r.inbound ++ [m] }
  | deliver (r : Relay M) (m : M) (rest : List M)
      (h : (m :: rest).Perm r.inbound) :
      Step r { r with inbound := rest, delivered := r.delivered ++ [m] }
  | dropOutbound (r : Relay M) (m : M) (rest : List M)
      (h : (m :: rest).Perm r.outbound) : Step r { r with outbound := rest }
  | dropInbound (r : Relay M) (m : M) (rest : List M)
      (h : (m :: rest).Perm r.inbound) : Step r { r with inbound := rest }

/-- No message is anywhere more often than it was sent. -/
def Unduplicated (r : Relay M) : Prop :=
  (r.outbound : Multiset M) + r.inbound + r.delivered ≤ r.sent

theorem coe_perm {m : M} {ms rest : List M} (h : (m :: rest).Perm ms) :
    (ms : Multiset M) = rest + {m} := by
  rw [← Multiset.coe_eq_coe.mpr h, ← Multiset.cons_coe,
    ← Multiset.singleton_add, add_comm]

theorem coe_snoc (ms : List M) (m : M) :
    ((ms ++ [m] : List M) : Multiset M) = ms + {m} := by
  rw [← Multiset.coe_add]
  rfl

theorem Step.unduplicated {r r' : Relay M} (h : Step r r')
    (hr : Unduplicated r) : Unduplicated r' := by
  unfold Unduplicated at hr ⊢
  cases h with
  | send m =>
      simp only [coe_snoc]
      calc (r.outbound + {m} + r.inbound + r.delivered : Multiset M)
          = r.outbound + r.inbound + r.delivered + {m} := by ac_rfl
        _ ≤ r.sent + {m} := by gcongr
  | echo m rest h =>
      rw [coe_perm h] at hr
      simp only [coe_snoc]
      calc (rest + (r.inbound + {m}) + r.delivered : Multiset M)
          = rest + {m} + r.inbound + r.delivered := by ac_rfl
        _ ≤ r.sent := hr
  | deliver m rest h =>
      rw [coe_perm h] at hr
      simp only [coe_snoc]
      calc (r.outbound + rest + (r.delivered + {m}) : Multiset M)
          = r.outbound + (rest + {m}) + r.delivered := by ac_rfl
        _ ≤ r.sent := hr
  | dropOutbound m rest h =>
      rw [coe_perm h] at hr
      refine le_trans ?_ hr
      gcongr
      exact Multiset.le_add_right _ _
  | dropInbound m rest h =>
      rw [coe_perm h] at hr
      refine le_trans ?_ hr
      gcongr
      exact Multiset.le_add_right _ _

theorem unduplicated_of_run {r : Relay M}
    (h : Relation.ReflTransGen Step Relay.empty r) : Unduplicated r := by
  induction h with
  | refl => exact le_refl _
  | tail _ hstep ih => exact hstep.unduplicated ih

/-- If all sent messages are different, no two delivered ones are equal. -/
theorem delivered_nodup {r : Relay M} (h : Unduplicated r)
    (hsent : r.sent.Nodup) : r.delivered.Nodup := by
  have hle : (r.delivered : Multiset M) ≤ r.sent :=
    le_trans (Multiset.le_add_left _ _) h
  exact Multiset.coe_nodup.mp
    (Multiset.nodup_of_le hle (Multiset.coe_nodup.mpr hsent))

end ZenohPicoPerf.Foundation.Channel
