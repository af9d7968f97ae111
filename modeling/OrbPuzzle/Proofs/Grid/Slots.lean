import Mathlib.Logic.Equiv.Basic
import OrbPuzzle.Proofs.Grid.Identity
import OrbPuzzle.Reply

/-!
# The laws of slots

A board is an array of tiles, and each of its cells has a place there of its own. From this follow
the laws of `SlotLaws`: what is put on a cell is found there and nowhere else, swaps move tiles
without making or losing any and are their own inverses, and a call that names a cell outside the
board is refused and changes nothing. The board finds a cell by the id of its tile as long as ids are
apart. Every call but one keeps them apart (`of_perform`): a tile that is brought from outside may
have any id.

`slots_of_calls` says this of every board that calls lead to from a new one.
-/

namespace OrbPuzzle.Grid

/-! ## Calls -/

/-- What can be asked of a board from outside. -/
inductive Call where
  | setTile (p : Pos) (tile : Tile)
  | swap (a b : Pos)
  | respawn (p : Pos) (color : Color)
  /-- Gives the first tile with an id another colour. -/
  | recolor (id : TileId) (color : Color)
  | write (id : TileId) (field : Field) (value : Single)
deriving DecidableEq

namespace Call

/-- The cells that a call names, in the order in which they are checked. -/
def cells : Call → List Pos
  | .setTile p _ => [p]
  | .swap a b => [a, b]
  | .respawn p _ => [p]
  | .recolor _ _ => []
  | .write _ _ _ => []

/-- The error with which a board of the given size refuses a call: it names the first cell that the
board does not have. -/
def refusal? (call : Call) (size : Nat) : Option OutOfBounds :=
  (call.cells.find? fun p => ¬ p.Within size).map (⟨·, size⟩)

end Call

/-- The board after a change that may have been refused. -/
def settle (g : Grid) : Except OutOfBounds Grid → Reply Grid Unit
  | .error e => ⟨g, .error e⟩
  | .ok h => ⟨h, .ok ()⟩

/-- Carries out a call. An error comes without a board, so the board before it is still there. -/
def perform (g : Grid) : Call → Except Fault (Reply Grid Unit)
  | .setTile p tile => .ok (g.settle ((g.setTile p tile).map Prod.snd))
  | .swap a b => .ok (g.settle (g.swap a b))
  | .respawn p color => do
    let answer ← g.respawn p color
    return g.settle (answer.map Prod.snd)
  | .recolor id color => .ok ⟨g.modifyTile id ({ · with color }), .ok ()⟩
  | .write id field value => .ok ⟨g.write id field value, .ok ()⟩

/-- Carries out calls, each on the board after the one before. -/
def run (g : Grid) (calls : List Call) : Except Fault (List (Reply Grid Unit) × Grid) :=
  runAll perform Reply.state g calls

variable {g h : Grid} {p : Pos} {tile : Tile}

/-! ## Slots -/

theorem tileAt_eq_ok_iff_within : (∃ tile, g.tileAt p = .ok tile) ↔ p.Within g.size :=
  ⟨fun ⟨_, htile⟩ => within_of_tileAt_eq_ok htile, tileAt_eq_ok_of_within⟩

/-- Every tile of the board stands on a cell. -/
theorem exists_tileAt_of_mem (htile : tile ∈ g.tiles) : ∃ p, g.tileAt p = .ok tile := by
  obtain ⟨i, hi, rfl⟩ := Array.mem_iff_getElem.mp htile
  refine ⟨Pos.ofIndex g.size i, tileAt_eq_ok_iff.mpr ⟨?_, ?_⟩⟩
  · exact Pos.within_ofIndex (g.tiles_size ▸ hi)
  · rw [Pos.index_ofIndex, Array.getElem?_eq_getElem hi]

/-- A board that differs in one place of storage differs on one cell. -/
theorem tileAt_eq_of_set {i : Fin g.tiles.size} {added : Tile} (hslot : g.slot p = .ok i)
    (hsize : h.size = g.size) (htiles : h.tiles = g.tiles.set i added i.isLt) :
    h.tileAt p = .ok added ∧ ∀ q, q ≠ p → h.tileAt q = g.tileAt q := by
  have hp : p.Within h.size := hsize ▸ within_of_slot_eq_ok hslot
  constructor
  · obtain ⟨tile, htile⟩ := tileAt_eq_ok_of_within hp
    obtain ⟨-, rfl⟩ | ⟨hne, -⟩ := tileAt_of_set hslot hsize htiles htile
    · exact htile
    · exact absurd rfl hne
  · intro q hne
    by_cases hq : q.Within h.size
    · obtain ⟨tile, htile⟩ := tileAt_eq_ok_of_within hq
      obtain ⟨heq, -⟩ | ⟨-, hold⟩ := tileAt_of_set hslot hsize htiles htile
      · exact absurd heq hne
      · rw [htile, hold]
    · rw [tileAt_of_not_within hq, tileAt_of_not_within (hsize ▸ hq), hsize]

theorem setTile_of_within (hp : p.Within g.size) (tile : Tile) :
    ∃ old h, g.setTile p tile = .ok (old, h) ∧ g.tileAt p = .ok old ∧ h.tileAt p = .ok tile ∧
      (∀ q, q ≠ p → h.tileAt q = g.tileAt q) ∧ h.nextId = g.nextId := by
  obtain ⟨i, hi⟩ := slot_eq_ok_of_within hp
  have hset : (g.setSlot i tile).tileAt p = .ok tile ∧
      ∀ q, q ≠ p → (g.setSlot i tile).tileAt q = g.tileAt q := tileAt_eq_of_set hi rfl rfl
  refine ⟨g.tiles[i], g.setSlot i tile, ?_, ?_, hset.1, hset.2, rfl⟩
  · rw [setTile, hi]
    rfl
  · rw [tileAt, hi]
    rfl

theorem of_respawn_eq_ok {color : Color} {id : TileId}
    (heq : g.respawn p color = .ok (.ok (id, h))) :
    (∀ q, q ≠ p → h.tileAt q = g.tileAt q) ∧ h.size = g.size ∧ id = g.nextId ∧
      h.nextId = g.nextId + 1 ∧ h.tileAt p = .ok (restingTile g.size id p color) := by
  obtain ⟨-, e, herror⟩ | ⟨i, h', hslot, hok, hsize, hnextId, htiles⟩ := respawn_cases heq
  · cases herror
  · cases hok
    obtain ⟨hnew, hother⟩ := tileAt_eq_of_set hslot hsize htiles
    exact ⟨hother, hsize, rfl, hnextId, hnew⟩

/-! ## Swaps -/

theorem swap_of_within {a b : Pos} (ha : a.Within g.size) (hb : b.Within g.size) :
    ∃ h, g.swap a b = .ok h := by
  obtain ⟨i, hi⟩ := slot_eq_ok_of_within ha
  obtain ⟨j, hj⟩ := slot_eq_ok_of_within hb
  exact ⟨_, bind_eq_ok_iff.mpr ⟨i, hi, bind_eq_ok_iff.mpr ⟨j, hj, rfl⟩⟩⟩

/-- A swap exchanges two places of storage. -/
theorem of_swap_eq_ok {a b : Pos} (heq : g.swap a b = .ok h) :
    (a.Within g.size ∧ b.Within g.size) ∧
      ∀ k : Nat, h.tiles[k]? = g.tiles[Equiv.swap (a.index g.size) (b.index g.size) k]? := by
  obtain ⟨i, hi, heq⟩ := bind_eq_ok_iff.mp heq
  obtain ⟨j, hj, heq⟩ := bind_eq_ok_iff.mp heq
  obtain rfl := pure_eq_ok_iff.mp heq
  refine ⟨⟨within_of_slot_eq_ok hi, within_of_slot_eq_ok hj⟩, fun k => ?_⟩
  rw [← slot_eq_ok hi, ← slot_eq_ok hj, Equiv.swap_apply_def]
  have hi := Array.getElem?_eq_getElem i.isLt
  have hj := Array.getElem?_eq_getElem j.isLt
  rw [Array.getElem?_swap]
  split_ifs <;> grind

/-- The same swap again takes a swap back. -/
theorem swap_swap {a b : Pos} (heq : g.swap a b = .ok h) : h.swap a b = .ok g := by
  obtain ⟨hsize, hnextId⟩ := swap_eq_ok heq
  obtain ⟨⟨ha, hb⟩, htiles⟩ := of_swap_eq_ok heq
  obtain ⟨back, hback⟩ := swap_of_within (g := h) (hsize ▸ ha) (hsize ▸ hb)
  obtain ⟨hsize', hnextId'⟩ := swap_eq_ok hback
  have hsame : back = g := by
    apply eq_of_getElem? (hsize'.trans hsize) (hnextId'.trans hnextId)
    intro k
    rw [(of_swap_eq_ok hback).2, htiles, hsize]
    simp
  rw [hback, hsame]

/-- A swap that is asked for can be asked for again to take it back, also if it was refused. -/
theorem perform_swap (g : Grid) (a b : Pos) :
    ∃ reply back, g.perform (.swap a b) = .ok reply ∧ reply.state.tiles.Perm g.tiles ∧
      reply.state.perform (.swap a b) = .ok back ∧ back.state = g := by
  cases hswap : g.swap a b with
  | error e =>
    have hrefused : g.perform (.swap a b) = .ok ⟨g, .error e⟩ := by rw [perform, hswap, settle]
    exact ⟨_, _, hrefused, .refl _, hrefused, rfl⟩
  | ok h =>
    have hthere : g.perform (.swap a b) = .ok ⟨h, .ok ()⟩ := by rw [perform, hswap, settle]
    have hback : h.perform (.swap a b) = .ok ⟨g, .ok ()⟩ := by
      rw [perform, swap_swap hswap, settle]
    exact ⟨_, _, hthere, tiles_swap_perm hswap, hback, rfl⟩

/-- The calls lead from one board to another. -/
def Leads (calls : List Call) (g h : Grid) : Prop := ∃ replies, g.run calls = .ok (replies, h)

theorem leads_nil (g : Grid) : Leads [] g g := ⟨[], rfl⟩

theorem leads_singleton {call : Call} {reply : Reply Grid Unit} (h : g.perform call = .ok reply) :
    Leads [call] g reply.state := by
  refine ⟨[reply], ?_⟩
  rw [run, runAll_singleton, h]
  rfl

theorem Leads.append {first second : List Call} {middle : Grid} (hfirst : Leads first g middle)
    (hsecond : Leads second middle h) : Leads (first ++ second) g h := by
  obtain ⟨replies, hfirst⟩ := hfirst
  obtain ⟨later, hsecond⟩ := hsecond
  refine ⟨replies ++ later, ?_⟩
  rw [run] at hfirst hsecond ⊢
  rw [runAll_append, hfirst]
  exact bind_eq_ok_iff.mpr ⟨_, rfl, bind_eq_ok_iff.mpr ⟨_, hsecond, rfl⟩⟩

/-- Any number of swaps only rearrange the tiles, and the same swaps in reverse order take them
back. -/
theorem leads_swaps (g : Grid) (pairs : List (Pos × Pos)) :
    ∃ h, Leads (pairs.map fun pair => .swap pair.1 pair.2) g h ∧ h.tiles.Perm g.tiles ∧
      Leads (pairs.map fun pair => .swap pair.1 pair.2).reverse h g := by
  induction pairs generalizing g with
  | nil => exact ⟨g, leads_nil g, .refl _, leads_nil g⟩
  | cons pair rest ih =>
    obtain ⟨reply, back, hthere, hperm, hback, hsame⟩ := g.perform_swap pair.1 pair.2
    obtain ⟨h, hrest, hpermRest, hreverse⟩ := ih reply.state
    refine ⟨h, (leads_singleton hthere).append hrest, hpermRest.trans hperm, ?_⟩
    rw [List.map_cons, List.reverse_cons]
    exact hreverse.append (hsame ▸ leads_singleton hback)

/-! ## Refusals -/

/-- A call is refused exactly if it names a cell that the board does not have, and then the board
stays as it is. -/
theorem perform_cases (g : Grid) (call : Call) :
    (∃ e, call.refusal? g.size = some e ∧ g.perform call = .ok ⟨g, .error e⟩) ∨
      call.refusal? g.size = none ∧
        ∀ reply, g.perform call = .ok reply → reply.answer = .ok () := by
  cases call with
  | setTile p tile =>
    by_cases hp : p.Within g.size
    · obtain ⟨old, h, hset, -⟩ := setTile_of_within hp tile
      refine .inr ⟨by simp [Call.refusal?, Call.cells, hp], fun reply hreply => ?_⟩
      rw [perform, hset] at hreply
      cases hreply
      rfl
    · refine .inl ⟨⟨p, g.size⟩, by simp [Call.refusal?, Call.cells, hp], ?_⟩
      rw [perform, setTile, slot_of_not_within hp]
      rfl
  | swap a b =>
    by_cases ha : a.Within g.size
    · by_cases hb : b.Within g.size
      · obtain ⟨h, hswap⟩ := swap_of_within ha hb
        refine .inr ⟨by simp [Call.refusal?, Call.cells, ha, hb], fun reply hreply => ?_⟩
        rw [perform, hswap] at hreply
        cases hreply
        rfl
      · obtain ⟨i, hi⟩ := slot_eq_ok_of_within ha
        refine .inl ⟨⟨b, g.size⟩, by simp [Call.refusal?, Call.cells, ha, hb], ?_⟩
        rw [perform, swap, hi, slot_of_not_within hb]
        rfl
    · refine .inl ⟨⟨a, g.size⟩, by simp [Call.refusal?, Call.cells, ha], ?_⟩
      rw [perform, swap, slot_of_not_within ha]
      rfl
  | respawn p color =>
    by_cases hp : p.Within g.size
    · refine .inr ⟨by simp [Call.refusal?, Call.cells, hp], fun reply hreply => ?_⟩
      obtain ⟨answer, hanswer, hreply⟩ := bind_eq_ok_iff.mp hreply
      obtain ⟨h, rfl, -⟩ := respawn_eq_ok hp hanswer
      obtain rfl := pure_eq_ok_iff.mp hreply
      rfl
    · refine .inl ⟨⟨p, g.size⟩, by simp [Call.refusal?, Call.cells, hp], ?_⟩
      rw [perform, respawn, slot_of_not_within hp]
      rfl
  | recolor id color =>
    refine .inr ⟨rfl, fun reply hreply => ?_⟩
    cases hreply
    rfl
  | write id field value =>
    refine .inr ⟨rfl, fun reply hreply => ?_⟩
    cases hreply
    rfl

theorem refused_of_perform {call : Call} {reply : Reply Grid Unit} {e : OutOfBounds}
    (hreply : g.perform call = .ok reply) (hanswer : reply.answer = .error e) :
    reply.state = g ∧ call.refusal? g.size = some e := by
  obtain ⟨e', hrefusal, hrefused⟩ | ⟨-, hanswered⟩ := g.perform_cases call
  · rw [hrefused] at hreply
    cases hreply
    cases hanswer
    exact ⟨rfl, hrefusal⟩
  · cases hanswer.symm.trans (hanswered reply hreply)

theorem perform_of_refusal {call : Call} {e : OutOfBounds}
    (hrefusal : call.refusal? g.size = some e) : g.perform call = .ok ⟨g, .error e⟩ := by
  obtain ⟨e', hrefusal', hrefused⟩ | ⟨hnone, -⟩ := g.perform_cases call
  · obtain rfl := Option.some.inj (hrefusal.symm.trans hrefusal')
    exact hrefused
  · cases hrefusal.symm.trans hnone

/-! ## Tiles by id -/

/-- A change of a tile that keeps its id changes no id. -/
theorem frame_modifyTile (g : Grid) (id : TileId) {change : Tile → Tile}
    (hchange : ∀ tile, (change tile).id = tile.id) :
    (g.modifyTile id change).size = g.size ∧ (g.modifyTile id change).nextId = g.nextId ∧
      (g.modifyTile id change).ids = g.ids := by
  unfold modifyTile
  split
  · exact ⟨rfl, rfl, rfl⟩
  · next i hi =>
    have hlt : i.val < g.ids.length := by simp [ids]
    have hsame : g.tiles[i.val].id = g.ids[i.val] := by simp [ids]
    have hset : (g.setSlot i (change g.tiles[i])).ids = g.ids.set i g.tiles[i.val].id := by
      simp [ids, setSlot, List.map_set, hchange]
    rw [hset, hsame, List.set_getElem_self]
    exact ⟨rfl, rfl, rfl⟩

/-- The tiles have distinct ids, and the next id is above all of them. -/
structure Numbered (g : Grid) : Prop where
  nodup : g.ids.Nodup
  lt_nextId : ∀ id ∈ g.ids, id < g.nextId

/-- A board that was just made has a resting tile on each cell, which has the place of the cell in
storage as its id. -/
theorem tileAt_tabulate_of_within {size : Nat} {color : Pos → Color}
    (heq : tabulate size color = .ok g) (hp : p.Within size) :
    g.tileAt p = .ok (restingTile size (p.index size) p (color p)) := by
  obtain ⟨_, -, heq⟩ := bind_eq_ok_iff.mp heq
  obtain rfl := pure_eq_ok_iff.mp heq
  refine tileAt_eq_ok_iff.mpr ⟨hp, ?_⟩
  have hlt : p.index size < (tabulateTiles size color).size := by
    rw [size_tabulateTiles]
    exact Pos.index_lt hp
  rw [Array.getElem?_eq_getElem hlt]
  simp only [tabulateTiles_eq, Array.getElem_ofFn, Pos.ofIndex_index hp]

theorem numbered_tabulate {size : Nat} {color : Pos → Color} (heq : tabulate size color = .ok g) :
    g.Numbered := by
  have hids := ids_tabulate heq
  refine ⟨hids ▸ List.nodup_range, fun id hid => ?_⟩
  rw [hids, List.mem_range] at hid
  exact Nat.lt_of_lt_of_eq hid (tabulate_eq_ok heq).2.symm

theorem Numbered.swap {a b : Pos} (hg : g.Numbered) (heq : g.swap a b = .ok h) : h.Numbered := by
  have hperm := ids_swap_perm heq
  refine ⟨hperm.nodup_iff.mpr hg.nodup, fun id hid => ?_⟩
  rw [(swap_eq_ok heq).2]
  exact hg.lt_nextId id (hperm.mem_iff.mp hid)

theorem Numbered.respawn {color : Color} {id : TileId} (hg : g.Numbered)
    (heq : g.respawn p color = .ok (.ok (id, h))) : h.Numbered := by
  obtain ⟨-, -, rfl, -, htile⟩ := of_respawn_eq_ok heq
  obtain ⟨hid, -, hnextId, i, htiles⟩ := tiles_of_respawn heq htile
  have hids : h.ids = g.ids.set i g.nextId := by
    simp only [ids, htiles, Array.toList_set, List.map_set, hid]
  have hfresh : g.nextId ∉ g.ids := fun hmem => Nat.lt_irrefl _ (hg.lt_nextId _ hmem)
  constructor
  · rw [hids]
    exact hg.nodup.set hfresh
  · intro id hid
    rw [hids] at hid
    rw [hnextId]
    rcases List.mem_or_eq_of_mem_set hid with hold | rfl
    · exact Nat.lt_succ_of_lt (hg.lt_nextId id hold)
    · exact Nat.lt_succ_self _

theorem Numbered.modifyTile (hg : g.Numbered) (id : TileId) {change : Tile → Tile}
    (hchange : ∀ tile, (change tile).id = tile.id) : (g.modifyTile id change).Numbered := by
  obtain ⟨-, hnextId, hids⟩ := g.frame_modifyTile id hchange
  refine ⟨hids ▸ hg.nodup, fun other hother => ?_⟩
  rw [hnextId]
  exact hg.lt_nextId other (hids ▸ hother)

/-- Every call keeps the size of the board, and every call but one that brings a tile from outside
keeps ids apart. -/
theorem of_perform {call : Call} {reply : Reply Grid Unit} (hreply : g.perform call = .ok reply) :
    reply.state.size = g.size ∧
      ((∀ p tile, call ≠ .setTile p tile) → g.Numbered → reply.state.Numbered) := by
  cases call with
  | setTile p tile =>
    refine ⟨?_, fun hcall => absurd rfl (hcall p tile)⟩
    cases hset : g.setTile p tile with
    | error e =>
      rw [perform, hset] at hreply
      cases hreply
      rfl
    | ok placed =>
      rw [perform, hset] at hreply
      cases hreply
      obtain ⟨i, -, hset⟩ := bind_eq_ok_iff.mp hset
      obtain rfl := pure_eq_ok_iff.mp hset
      rfl
  | swap a b =>
    cases hswap : g.swap a b with
    | error e =>
      rw [perform, hswap] at hreply
      cases hreply
      exact ⟨rfl, fun _ hg => hg⟩
    | ok h =>
      rw [perform, hswap] at hreply
      cases hreply
      exact ⟨(swap_eq_ok hswap).1, fun _ hg => hg.swap hswap⟩
  | respawn p color =>
    obtain ⟨answer, hanswer, hreply⟩ := bind_eq_ok_iff.mp hreply
    obtain rfl := pure_eq_ok_iff.mp hreply
    match answer with
    | .error e => exact ⟨rfl, fun _ hg => hg⟩
    | .ok (id, h) =>
      exact ⟨(of_respawn_eq_ok hanswer).2.1, fun _ hg => hg.respawn hanswer⟩
  | recolor id color =>
    cases hreply
    have hid : ∀ tile : Tile, ({ tile with color } : Tile).id = tile.id := fun _ => rfl
    exact ⟨(g.frame_modifyTile id hid).1, fun _ hg => hg.modifyTile id hid⟩
  | write id field value =>
    cases hreply
    have hid := fun tile : Tile => tile.id_set field value
    exact ⟨(g.frame_modifyTile id hid).1, fun _ hg => hg.modifyTile id hid⟩

/-- In a board of distinct ids, the cell of a tile is found by its id. -/
theorem positionOf?_tileAt (hg : g.ids.Nodup) (htile : g.tileAt p = .ok tile) :
    g.positionOf? tile.id = some p := by
  obtain ⟨hp, htile⟩ := tileAt_eq_ok_iff.mp htile
  obtain ⟨hi, rfl⟩ := Array.getElem?_eq_some_iff.mp htile
  have hfind : g.tiles.findIdx? (·.id == g.tiles[p.index g.size].id) = some (p.index g.size) := by
    rw [Array.findIdx?_eq_some_iff_getElem]
    refine ⟨hi, by simp, fun j hj hsame => ?_⟩
    have hindex := index_eq_of_id_eq hg (Nat.lt_trans hj hi) hi (beq_iff_eq.mp hsame)
    omega
  rw [positionOf?, hfind, Option.map_some, Pos.ofIndex_index hp]

theorem positionOf?_eq_none_iff {id : TileId} :
    g.positionOf? id = none ↔ ∀ p tile, g.tileAt p = .ok tile → tile.id ≠ id := by
  rw [positionOf?, Option.map_eq_none_iff, Array.findIdx?_eq_none_iff]
  constructor
  · intro h p tile htile
    simpa using h tile (mem_tiles_of_tileAt htile)
  · intro h tile htile
    obtain ⟨p, hp⟩ := exists_tileAt_of_mem htile
    simpa using h p tile hp

/-! ## Every board -/

/-- The laws of the slots of a board of size `n`. -/
structure SlotLaws (n : Nat) (g : Grid) : Prop where
  /-- A cell has a tile exactly if both of its coordinates are below the size. -/
  tileAt_iff : ∀ p, (∃ tile, g.tileAt p = .ok tile) ↔ p.col < n ∧ p.row < n
  /-- Putting a tile on a cell gives back the tile that was there and changes no other cell. -/
  setTile : ∀ p tile, p.Within n → ∃ old h, g.setTile p tile = .ok (old, h) ∧
    g.tileAt p = .ok old ∧ h.tileAt p = .ok tile ∧ (∀ q, q ≠ p → h.tileAt q = g.tileAt q) ∧
    h.nextId = g.nextId
  /-- A respawn changes one cell and spends one id. -/
  respawn : ∀ p color id h, g.respawn p color = .ok (.ok (id, h)) →
    (∀ q, q ≠ p → h.tileAt q = g.tileAt q) ∧ h.size = g.size ∧ id = g.nextId ∧
    h.nextId = g.nextId + 1 ∧ h.tileAt p = .ok (restingTile n id p color)
  /-- Swaps, carried out or refused, rearrange the tiles and are taken back in reverse order. -/
  swaps : ∀ pairs : List (Pos × Pos), ∃ h,
    Leads (pairs.map fun pair => .swap pair.1 pair.2) g h ∧ h.tiles.Perm g.tiles ∧
    Leads (pairs.map fun pair => .swap pair.1 pair.2).reverse h g
  /-- A call that is answered by an error leaves the board as it is, and names a cell that the board
  does not have. -/
  refused : ∀ call reply e, g.perform call = .ok reply → reply.answer = .error e →
    reply.state = g ∧ call.refusal? n = some e
  refuses : ∀ call e, call.refusal? n = some e → g.perform call = .ok ⟨g, .error e⟩

theorem slotLaws (g : Grid) : SlotLaws g.size g where
  tileAt_iff _ := tileAt_eq_ok_iff_within
  setTile _ tile hp := setTile_of_within hp tile
  respawn _ _ _ _ := of_respawn_eq_ok
  swaps := g.leads_swaps
  refused _ _ _ := refused_of_perform
  refuses _ _ := perform_of_refusal

/-- A board finds the cell of each of its tiles by id, and no cell for any other id. -/
structure FindsTiles (g : Grid) : Prop where
  positionOf?_id : ∀ p tile, g.tileAt p = .ok tile → g.positionOf? tile.id = some p
  positionOf?_eq_none_iff : ∀ id, g.positionOf? id = none ↔
    ∀ p tile, g.tileAt p = .ok tile → tile.id ≠ id

/-- Whatever calls have been made, a board keeps its size and obeys the laws of slots. As long as no
tile has been brought from outside it finds its tiles by id; they were numbered in storage order
when the board was made. -/
theorem slots_of_calls {n : Nat} {color : Pos → Color} {start g : Grid} {calls : List Call}
    (hstart : tabulate n color = .ok start) (hcalls : Leads calls start g) :
    SlotLaws n g ∧ ((∀ p tile, .setTile p tile ∉ calls) → g.FindsTiles) ∧
      ∀ c r, c < n → r < n → ∃ tile, start.tileAt ⟨c, r⟩ = .ok tile ∧ tile.id = c * n + r ∧
        tile.color = color ⟨c, r⟩ := by
  obtain ⟨replies, hrun⟩ := hcalls
  obtain ⟨hsize, -⟩ := tabulate_eq_ok hstart
  refine ⟨?_, ?_, ?_⟩
  · have hkept : g.size = n := by
      refine runAll_induction (motive := fun _ g => g.size = n) hsize ?_ hrun
      intro _ g call reply hg hreply
      exact (of_perform hreply).1.trans hg
    exact hkept ▸ slotLaws g
  · intro hcalls
    have hnumbered : g.Numbered := by
      refine runAll_induction_mem (motive := fun _ g => g.Numbered) (numbered_tabulate hstart) ?_
        hrun
      intro call hcall _ g reply hg hreply
      refine (of_perform hreply).2 ?_ hg
      rintro p tile rfl
      exact hcalls p tile hcall
    exact ⟨fun _ _ => positionOf?_tileAt hnumbered.nodup, fun _ => positionOf?_eq_none_iff⟩
  · intro c r hc hr
    exact ⟨_, tileAt_tabulate_of_within hstart ⟨hc, hr⟩, rfl, rfl⟩

/-- A swap, one that is refused, a new tile, and changes of two tiles. -/
def mixedCalls : List Call :=
  [.swap ⟨0, 0⟩ ⟨1, 1⟩, .swap ⟨0, 0⟩ ⟨0, 2⟩, .respawn ⟨1, 0⟩ .green, .recolor 3 .blue,
    .write 1 .scale .one]

/-- After these calls on a board of four cells, tile 2 is gone, and the others are found. -/
theorem slots_of_calls_mixedCalls :
    ∃ start g, tabulate 2 (fun _ => .red) = .ok start ∧ Leads mixedCalls start g ∧
      g.ids = [3, 1, 4, 0] ∧ SlotLaws 2 g ∧ g.positionOf? 2 = none ∧
      ∃ tile, g.tileAt ⟨1, 0⟩ = .ok tile ∧ tile.color = .green ∧
        g.positionOf? tile.id = some ⟨1, 0⟩ := by
  obtain ⟨start, hstart, htest⟩ := exists_of_any_toOption (x := tabulate 2 fun _ => .red)
    (fun start => (start.run mixedCalls).toOption.any fun (_, g) =>
      decide (g.ids = [3, 1, 4, 0]) && (g.tileAt ⟨1, 0⟩).toOption.any (·.color = .green))
    (by decide +kernel)
  obtain ⟨⟨replies, g⟩, hrun, hend⟩ := exists_of_any_toOption _ htest
  simp only [Bool.and_eq_true, decide_eq_true_eq] at hend
  obtain ⟨hids, htile⟩ := hend
  obtain ⟨tile, htile, hcolor⟩ := exists_of_any_toOption _ htile
  obtain ⟨hlaws, hfinds, -⟩ := slots_of_calls hstart ⟨replies, hrun⟩
  have hfinds := hfinds (by simp [mixedCalls])
  refine ⟨start, g, hstart, ⟨replies, hrun⟩, hids, hlaws, ?_, tile, htile, ?_, ?_⟩
  · refine (hfinds.positionOf?_eq_none_iff 2).mpr fun p other hother hid => ?_
    have hmem := id_mem_ids_of_tileAt hother
    rw [hids, hid] at hmem
    exact absurd hmem (by decide)
  · exact of_decide_eq_true hcolor
  · exact hfinds.positionOf?_id _ _ htile

end OrbPuzzle.Grid
