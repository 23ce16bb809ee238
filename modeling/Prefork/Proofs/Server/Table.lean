import Prefork.Proofs.Server.View

namespace Prefork.Server.Loop

variable {σ η : Type} {l : Loop σ η} {t : Token}

def tokens (l : Loop σ η) : List Token := l.connections.map (·.1)

structure Ordered (l : Loop σ η) : Prop where
  increasing : l.tokens.Pairwise (· < ·)
  bounded : ∀ t ∈ l.tokens, t < l.nextToken

theorem Ordered.of_sublist {l' : Loop σ η} (h : l.Ordered) (hs : l'.tokens.Sublist l.tokens)
    (hn : l'.nextToken = l.nextToken) : l'.Ordered :=
  ⟨h.increasing.sublist hs, fun t ht ↦ hn ▸ h.bounded t (hs.subset ht)⟩

theorem Ordered.find?_of_mem {c : Connection σ} (h : l.Ordered) (hm : (t, c) ∈ l.connections) :
    l.find? t = some c := by
  obtain ⟨hi, -⟩ := h
  rw [tokens] at hi
  rw [find?]
  generalize l.connections = entries at hi hm ⊢
  induction entries with
  | nil => cases hm
  | cons e entries ih =>
    obtain ⟨hle, hi⟩ := List.pairwise_cons.1 hi
    rcases List.mem_cons.1 hm with rfl | hm
    · rw [List.find?_cons_of_pos (by simp)]
      rfl
    · have hlt := hle t (List.mem_map_of_mem hm)
      rw [List.find?_cons_of_neg (by simpa using Nat.ne_of_lt hlt)]
      exact ih hi hm

theorem Ordered.find?_of_le (h : l.Ordered) (ht : l.nextToken ≤ t) : l.find? t = none := by
  rw [find?, Option.map_eq_none_iff, List.find?_eq_none]
  intro e he hb
  have hlt := h.bounded e.1 (List.mem_map_of_mem he)
  rw [eq_of_beq hb] at hlt
  exact Nat.not_le.2 hlt ht

theorem tokens_put (l : Loop σ η) (t : Token) (c : Connection σ) :
    (l.put t c).tokens = l.tokens := by
  rw [tokens, put, List.map_map, tokens]
  refine List.map_congr_left fun e _ ↦ ?_
  simp only [Function.comp]
  split
  · next h => exact (eq_of_beq h).symm
  · rfl

theorem tokens_close (l : Loop σ η) (t : Token) : (l.close t).1.tokens.Sublist l.tokens := by
  rw [close]
  split
  · exact List.Sublist.refl _
  · exact List.filter_sublist.map _

theorem tokens_rearm (l : Loop σ η) (t : Token) (rearmed : Bool) :
    (l.rearm t rearmed).1.tokens.Sublist l.tokens := by
  rw [rearm]
  split
  · exact List.Sublist.refl _
  · split
    · exact (tokens_put l t _).symm ▸ List.Sublist.refl _
    · exact tokens_close l t

variable (config : Config σ)

theorem tokens_send (l : Loop σ η) (t : Token) (outcome : WriteOutcome) :
    (l.send config t outcome).1.tokens.Sublist l.tokens := by
  have hput (l : Loop σ η) (c : Connection σ) : (l.put t c).tokens.Sublist l.tokens :=
    (tokens_put l t c).symm ▸ List.Sublist.refl _
  rw [send]
  split
  · exact List.Sublist.refl _
  · next c _ =>
    dsimp only
    split
    · exact (tokens_close _ t).trans (hput l _)
    · split
      · exact (tokens_rearm _ t _).trans (hput l _)
      · split
        · exact (tokens_close _ t).trans (hput l _)
        · split
          · exact (tokens_rearm _ t _).trans ((hput _ _).trans (hput l _))
          · exact (tokens_close _ t).trans ((hput _ _).trans (hput l _))

theorem tokens_answer (l : Loop σ η) (t : Token) (finished : Bool) (outcome : WriteOutcome) :
    (l.answer config t finished outcome).1.tokens.Sublist l.tokens := by
  rw [answer]
  split
  · exact List.Sublist.refl _
  · split
    · split
      · exact tokens_close l t
      · exact tokens_rearm l t _
    · exact (tokens_send config _ t outcome).trans (tokens_put l t _ ▸ List.Sublist.refl _)

theorem tokens_receive (l : Loop σ η) (r : Readiness) :
    (l.receive config r).1.tokens.Sublist l.tokens := by
  rw [receive]
  split
  · exact List.Sublist.refl _
  · split
    · exact List.Sublist.refl _
    · dsimp only
      split
      · exact tokens_close _ r.token
      · exact tokens_close l r.token
      · exact tokens_answer config l ..
      · split
        · exact (tokens_answer config _ ..).trans (tokens_put l r.token _ ▸ List.Sublist.refl _)
        · exact (tokens_close _ r.token).trans (tokens_put l r.token _ ▸ List.Sublist.refl _)

theorem tokens_react (l : Loop σ η) (r : Readiness) :
    (react config r l).1.tokens.Sublist l.tokens := by
  rw [react]
  split
  · exact tokens_close l r.token
  · split
    · exact tokens_receive config l r
    · exact List.Sublist.refl _

theorem Ordered.accept (h : l.Ordered) (hooks : Hooks η) (env : Surroundings) :
    (l.accept hooks config env).1.Ordered := by
  have hnext : ∀ t ∈ l.tokens, t < l.nextToken + 1 := fun t ht ↦ Nat.lt_succ_of_lt (h.bounded t ht)
  simp only [Loop.accept]
  split
  · exact h
  · split
    · exact ⟨h.increasing, h.bounded⟩
    · split
      · exact ⟨h.increasing, hnext⟩
      · refine ⟨?_, fun t ht ↦ ?_⟩
        · simp only [tokens, List.map_append, List.map_singleton]
          refine List.pairwise_append.2 ⟨h.increasing, List.pairwise_singleton .., fun t ht u hu ↦ ?_⟩
          rw [List.mem_singleton.1 hu]
          exact h.bounded t ht
        · simp only [tokens, List.map_append, List.map_singleton] at ht
          rcases List.mem_append.1 ht with ht | ht
          · exact hnext t ht
          · rw [List.mem_singleton.1 ht]
            exact Nat.lt_succ_self _

theorem connections_leaveIf (hooks : Hooks η) (granted : Bool) (l : Loop σ η) :
    (l.leaveIf hooks granted).1.connections = l.connections ∧
      (l.leaveIf hooks granted).1.nextToken = l.nextToken := by
  cases granted <;> exact ⟨rfl, rfl⟩

end Prefork.Server.Loop
