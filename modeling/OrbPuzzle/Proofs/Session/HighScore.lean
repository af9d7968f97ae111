import OrbPuzzle.Proofs.Host
import OrbPuzzle.Proofs.Session.Operations

/-!
# The high score

Whatever is asked of a game, its score only grows, and its high score is the larger of its score and
what the host remembered when the game began. Whether the host could store it makes no difference to
the game. If the store is reliable, the host remembers the high score at every moment, and the next
game begins with it.

Only one kind of change touches a score, so the invariant `Topped` has one case to look at.
-/

namespace OrbPuzzle

namespace Session

variable {σ : Type} [Store σ]

/-! ## One change -/

/-- The score is a possible one, the high score is the larger of it and what a host remembered at
first, and a reliable store remembers the high score now. -/
structure Topped (host : Host σ) (s : Session σ) : Prop where
  score_le : s.score ≤ Score.limit
  highScore_eq : s.highScore = max host.highScore s.score
  remembered : Store.Reliable host.store →
    Store.Reliable s.host.store ∧ s.host.highScore = s.highScore

variable {host : Host σ} {s t : Session σ} {events : List Event}

theorem topped_start (rules : Rules) (host : Host σ) (grid : Grid) (generator : Generator) :
    Topped host (start rules host grid generator) where
  score_le := Nat.zero_le _
  highScore_eq := (Nat.max_zero _).symm
  remembered := fun reliable => ⟨reliable, rfl⟩

/-- Scoring keeps the high score on top, and the score does not go down. -/
theorem Topped.addScore (h : Topped host s) (lines : Nat) :
    s.score ≤ (s.addScore lines).score ∧ Topped host (s.addScore lines) := by
  obtain ⟨hle, hhigh, hstored⟩ := h
  have hgrows : s.score ≤ min (s.score + lines) Score.limit := by omega
  have hlimit : min (s.score + lines) Score.limit ≤ Score.limit := Nat.min_le_right _ _
  by_cases hbeaten : s.highScore < min (s.score + lines) Score.limit
  · -- the new score is above all that was: it is the high score, and is stored
    have hadd : s.addScore lines = { s with
        score := min (s.score + lines) Score.limit
        highScore := min (s.score + lines) Score.limit
        host := (s.host.setHighScore (min (s.score + lines) Score.limit)).2 } := by
      simp only [Session.addScore, if_pos hbeaten]
      rfl
    rw [hadd]
    refine ⟨hgrows, hlimit, ?_, ?_⟩
    · show min (s.score + lines) Score.limit =
        max host.highScore (min (s.score + lines) Score.limit)
      omega
    · intro reliable
      obtain ⟨hreliable, -⟩ := hstored reliable
      exact ⟨hreliable.set _ _, s.host.highScore_setHighScore hreliable hlimit⟩
  · have hadd : s.addScore lines = { s with score := min (s.score + lines) Score.limit } := by
      simp only [Session.addScore, if_neg hbeaten]
    rw [hadd]
    refine ⟨hgrows, hlimit, ?_, hstored⟩
    show s.highScore = max host.highScore (min (s.score + lines) Score.limit)
    omega

theorem Topped.change (h : Topped host s) (hchange : Change s events t) :
    s.score ≤ t.score ∧ Topped host t := by
  obtain ⟨hle, hhigh, hstored⟩ := h
  cases hchange with
  | play => exact ⟨Nat.le_refl _, hle, hhigh, hstored⟩
  | append present => exact ⟨Nat.le_refl _, hle, hhigh, hstored⟩
  | exchange swap => exact ⟨Nat.le_refl _, hle, hhigh, hstored⟩
  | respawn respawn tileAt => exact ⟨Nat.le_refl _, hle, hhigh, hstored⟩
  | score lines => exact Topped.addScore ⟨hle, hhigh, hstored⟩ lines
  | pass tick selected generator => exact ⟨Nat.le_refl _, hle, hhigh, hstored⟩

/-! ## Every run -/

theorem Topped.changes (h : Topped host s) (hchanges : Changes s events t) :
    s.score ≤ t.score ∧ Topped host t := by
  induction hchanges with
  | refl => exact ⟨Nat.le_refl _, h⟩
  | tail _ last ih =>
    obtain ⟨hscore, hmiddle⟩ := ih
    obtain ⟨hlast, htopped⟩ := hmiddle.change last
    exact ⟨Nat.le_trans hscore hlast, htopped⟩

/-- Whatever is asked of a game, no operation lowers its score, and its high score is the larger of
its score and what the host remembered at first, whether or not anything could be stored. If the
store is reliable, the host remembers the high score, and so does every host with a store that
answers the same: a new game there begins with it. A store in memory is reliable, and one in a file
that can be written. -/
theorem highScore_of_operations {rules : Rules} {grid : Grid} {generator : Generator}
    {operations : List Operation} {acts : List (Act σ)}
    (h : (start rules host grid generator).runOperations operations = .ok (acts, s)) :
    (∀ act ∈ acts, act.before.score ≤ act.after.score) ∧
      s.highScore = max host.highScore s.score ∧
      (Store.Reliable host.store → s.host.highScore = s.highScore ∧
        ∀ (τ : Type) [Store τ] (again : Host τ),
          (∀ key, Store.get again.store key = Store.get s.host.store key) →
          ∀ rules grid generator, (start rules again grid generator).highScore = s.highScore) ∧
      (∀ memory : MemoryStore, Store.Reliable memory) ∧
      ∀ file : FileStore, file.Writable → Store.Reliable file := by
  have hstart := topped_start rules host grid generator
  obtain ⟨-, -, hhigh, hstored⟩ := hstart.changes (changes_of_runOperations h)
  refine ⟨?_, hhigh, ?_, MemoryStore.reliable, fun _ => FileStore.reliable⟩
  · intro act hact
    obtain ⟨earlier, later, rfl⟩ := List.append_of_mem hact
    obtain ⟨hbefore, hchanges, -⟩ := changes_around_act h
    exact ((hstart.changes hbefore).2.changes hchanges).1
  · intro reliable
    obtain ⟨-, hremembered⟩ := hstored reliable
    refine ⟨hremembered, ?_⟩
    intro τ _ again hagain rules grid generator
    show again.highScore = s.highScore
    rw [← hremembered, Host.highScore, Host.highScore, hagain]

/-- A host with a high score of two in a file that can be written. -/
def recordHost : Host FileStore where
  store := ⟨"store.json", ⟨({} : Entries).insert Score.key "2"⟩, {}⟩

/-- One line does not beat the record of two, two more do: the next game begins with three. -/
theorem highScore_of_operations_recordHost :
    recordHost.store.Writable ∧ recordHost.highScore = 2 ∧
      ∃ acts s, (start {} recordHost crossedGrid ⟨0⟩).runOperations
          [.execute (.tally 1), .call .update, .execute (.refill ⟨0, 1⟩), .execute (.tally 2)] =
            .ok (acts, s) ∧
        s.score = 3 ∧ s.highScore = 3 ∧ s.host.highScore = 3 ∧
        (start {} s.host crossedGrid ⟨0⟩).highScore = 3 := by
  have hwritable : recordHost.store.Writable := fun _ => rfl
  have hrecord : recordHost.highScore = 2 := by decide +kernel
  obtain ⟨⟨acts, s⟩, hrun, hend⟩ := exists_of_any_toOption
    (x := (start {} recordHost crossedGrid ⟨0⟩).runOperations
      [.execute (.tally 1), .call .update, .execute (.refill ⟨0, 1⟩), .execute (.tally 2)])
    (fun r => decide (r.2.score = 3)) (by decide +kernel)
  have hscore : s.score = 3 := of_decide_eq_true hend
  obtain ⟨-, hhigh, hreliable, -, hfile⟩ := highScore_of_operations hrun
  obtain ⟨hstored, hagain⟩ := hreliable (hfile _ hwritable)
  rw [hrecord, hscore] at hhigh
  refine ⟨hwritable, hrecord, acts, s, hrun, hscore, hhigh, hstored.trans hhigh, ?_⟩
  exact (hagain FileStore s.host (fun _ => rfl) {} crossedGrid ⟨0⟩).trans hhigh

end Session

end OrbPuzzle
