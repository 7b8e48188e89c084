import OpenNXT.Model.Entity.EntityList
import OpenNXT.Transition.Triple

/-! The players registered in the world and the slots of their entities. -/
namespace OpenNXT.Model
open Transition

/-- The players that are ever made, each with an entity of its own. -/
structure WorldPlayers (Player Entity : Type) where
  name : Player → List Char
  entity : Player → Entity
  entity_injective : Function.Injective entity

/-- Kotlin's `equals` ignoring case compares the characters in lower case, each one taken to upper
case first. -/
def equalsIgnoreCase (fold : Char → Char) (name other : List Char) : Bool :=
  name.map fold == other.map fold

/-- An order in which a hash set is gone through. -/
structure Iteration (α : Type) where
  order : List α → List α
  perm : ∀ l, (order l).Perm l

structure World (Player Entity : Type) where
  playerEntities : EntityList Entity 2000 := {}
  players : List Player := []
  toAdd : List Player := []
  /-- The channels that were closed. -/
  closed : List Player := []

inductive WorldError
  | entityList (e : EntityListError)
  /-- Thrown by the code of a player. -/
  | player

private theorem equalsIgnoreCase_refl (fold : Char → Char) (name : List Char) :
    equalsIgnoreCase fold name name = true := by
  simp [equalsIgnoreCase]

private theorem equalsIgnoreCase_comm (fold : Char → Char) (name other : List Char) :
    equalsIgnoreCase fold name other = equalsIgnoreCase fold other name := by
  simp [equalsIgnoreCase, Bool.beq_comm]

/-- What a registration meets: an order of the set of players, the channels that are open and
whether the bootstrap throws. -/
structure Registration (Player : Type) where
  iteration : Iteration Player
  isOpen : Player → Bool
  fails : Bool

/-- What a tick meets: the registrations by the number of players still queued, the orders of its
two rounds, the channels that are active and open, and the players whose turn throws. -/
structure WorldTick (Player : Type) where
  registration : ℕ → Registration Player
  iteration : Iteration Player
  isActive : Player → Bool
  isOpen : Player → Bool
  turns : Iteration Player
  fails : Player → Bool

inductive WorldCall (Player : Type)
  | addPlayer (player : Player)
  | addPlayerNow (r : Registration Player) (player : Player)
  | tick (t : WorldTick Player)

namespace World
variable {Player Entity : Type}

abbrev Prog (Player Entity : Type) := EStateM WorldError (World Player Entity)

def close (player : Player) : Prog Player Entity Unit :=
  modify fun w => { w with closed := w.closed ++ [player] }

def playerCode (fails : Bool) : Prog Player Entity Unit :=
  if fails then throw .player else pure ()

def addPlayer (player : Player) : Prog Player Entity Unit :=
  modify fun w => { w with toAdd := w.toAdd ++ [player] }

def getPlayer (w : World Player Entity) (index : ℤ) : Option Entity := w.playerEntities.get index

section
variable [DecidableEq Player] [DecidableEq Entity] (ps : WorldPlayers Player Entity)
  (fold : Char → Char)

def insertPlayer (player : Player) : Prog Player Entity Unit :=
  modify fun w => { w with
    players := if player ∈ w.players then w.players else w.players ++ [player] }

def erasePlayer (player : Player) : Prog Player Entity Unit :=
  modify fun w => { w with players := w.players.erase player }

def addEntity (player : Player) : Prog Player Entity Bool := do
  let w ← get
  set { w with playerEntities := (w.playerEntities.add (ps.entity player)).2 }
  return (w.playerEntities.add (ps.entity player)).1

def removeEntity (player : Player) : Prog Player Entity Unit := do
  let w ← get
  match w.playerEntities.remove (ps.entity player) with
  | .error e => throw (.entityList e)
  | .ok playerEntities => set { w with playerEntities }

def removePlayer (isOpen : Player → Bool) (player : Player) (closeChannel : Bool) :
    Prog Player Entity Unit := do
  erasePlayer player
  removeEntity ps player
  if closeChannel && isOpen player then close player

/-- What is done about an exception, in the bootstrap of a player as in its turn. -/
def discard (player : Player) : Prog Player Entity Unit := do
  erasePlayer player
  removeEntity ps player
  close player

def register (r : Registration Player) (player : Player) : Prog Player Entity Bool := do
  let w ← get
  (r.iteration.order w.players |>.filter fun existing =>
    equalsIgnoreCase fold (ps.name existing) (ps.name player)).forM fun existing =>
      removePlayer ps r.isOpen existing true
  insertPlayer player
  let added ← addEntity ps player
  if added then
    playerCode r.fails
    return true
  else
    erasePlayer player
    close player
    return false

def registerPlayer (r : Registration Player) (player : Player) : Prog Player Entity Bool :=
  tryCatch (register ps fold r player) fun _ => do
    discard ps player
    return false

def addPlayerNow (r : Registration Player) (player : Player) : Prog Player Entity Unit := do
  let _ ← registerPlayer ps fold r player

/-- The queue is emptied from its front. -/
def registerQueued (registration : ℕ → Registration Player) : List Player → Prog Player Entity Unit
  | [] => pure ()
  | player :: rest => do
    modify fun w => { w with toAdd := rest }
    let _ ← registerPlayer ps fold (registration rest.length) player
    registerQueued registration rest

def tickPlayer (t : WorldTick Player) (player : Player) : Prog Player Entity Unit :=
  tryCatch (playerCode (t.fails player)) fun _ => discard ps player

def tick (t : WorldTick Player) : Prog Player Entity Unit := do
  let w ← get
  registerQueued ps fold t.registration w.toAdd
  let w ← get
  (t.iteration.order w.players).forM fun player =>
    if t.isActive player then pure () else removePlayer ps t.isOpen player false
  let w ← get
  (t.turns.order w.players).forM fun player => tickPlayer ps t player

def call : WorldCall Player → Prog Player Entity Unit
  | .addPlayer player => addPlayer player
  | .addPlayerNow r player => addPlayerNow ps fold r player
  | .tick t => tick ps fold t

end

/-- The set of players and the slots, between two calls. -/
structure Registered (ps : WorldPlayers Player Entity) (fold : Char → Char)
    (w : World Player Entity) : Prop where
  nodup : w.players.Nodup
  names : ∀ p ∈ w.players, ∀ q ∈ w.players,
    equalsIgnoreCase fold (ps.name p) (ps.name q) = true → p = q
  holds : w.playerEntities.Holds (w.players.map ps.entity)

variable {ps : WorldPlayers Player Entity} {fold : Char → Char} {w : World Player Entity}

variable {players : List Player} {E : WorldError → World Player Entity → Prop} {β : Type}
  {R : β → World Player Entity → Prop}

/-- Between two calls, with these players. -/
private def With (ps : WorldPlayers Player Entity) (fold : Char → Char) (players : List Player)
    (w : World Player Entity) : Prop :=
  Registered ps fold w ∧ w.players = players

private theorem With.closed (h : With ps fold players w) (player : Player) :
    With ps fold players { w with closed := w.closed ++ [player] } :=
  ⟨⟨h.1.nodup, h.1.names, h.1.holds⟩, h.2⟩

private theorem triple_close {player : Player} :
    Triple (With ps fold players) (close player) (fun _ => With ps fold players) E :=
  triple_modify fun _ hw => hw.closed player

private theorem triple_playerCode {fails : Bool} :
    Triple (Registered ps fold) (playerCode fails) (fun _ => Registered ps fold)
      fun _ => Registered ps fold := by
  rw [playerCode]
  split
  · exact triple_throw fun _ hw => hw
  · exact triple_pure fun _ hw => hw

/-- Any player that goes by the name of this one is among the rest. -/
private def Replacing (ps : WorldPlayers Player Entity) (fold : Char → Char) (player : Player)
    (rest : List Player) (w : World Player Entity) : Prop :=
  Registered ps fold w ∧ ∀ p ∈ w.players,
    equalsIgnoreCase fold (ps.name p) (ps.name player) = true → p ∈ rest

/-- The player is in the set, where no other goes by its name, and has no slot yet. -/
private def Entering (ps : WorldPlayers Player Entity) (fold : Char → Char) (player : Player)
    (w : World Player Entity) : Prop :=
  ∃ players, w.players = players ++ [player] ∧ Registered ps fold { w with players := players } ∧
    ∀ p ∈ players, equalsIgnoreCase fold (ps.name p) (ps.name player) = false

private theorem notMem_of_names {player : Player}
    (h : ∀ p ∈ players, equalsIgnoreCase fold (ps.name p) (ps.name player) = false) :
    player ∉ players := by
  intro hp
  have hname := h player hp
  rw [equalsIgnoreCase_refl] at hname
  cases hname

variable [DecidableEq Player]

private theorem triple_insertPlayer {player : Player} :
    Triple (Replacing ps fold player []) (insertPlayer player)
      (fun _ => Entering ps fold player) E := by
  apply triple_modify
  intro w hw
  obtain ⟨hregistered, hrest⟩ := hw
  have hnames : ∀ p ∈ w.players,
      equalsIgnoreCase fold (ps.name p) (ps.name player) = false := by
    intro p hp
    rw [← Bool.not_eq_true]
    exact fun hname => List.not_mem_nil (hrest p hp hname)
  exact ⟨w.players, if_neg (notMem_of_names hnames), hregistered, hnames⟩

variable [DecidableEq Entity]

/-- The player is no longer in the set and its entity can be taken out. -/
private def Erased (ps : WorldPlayers Player Entity) (fold : Char → Char) (players : List Player)
    (player : Player) (w : World Player Entity) : Prop :=
  w.players = players.erase player ∧
    ∃ l, w.playerEntities.remove (ps.entity player) = .ok l ∧
      Registered ps fold { w with playerEntities := l }

private theorem Registered.erased (h : Registered ps fold w) (player : Player) :
    Erased ps fold w.players player { w with players := w.players.erase player } := by
  have hmap : (w.players.erase player).map ps.entity =
      (w.players.map ps.entity).erase (ps.entity player) := List.map_erase ps.entity_injective ..
  have hnames : ∀ p ∈ w.players.erase player, ∀ q ∈ w.players.erase player,
      equalsIgnoreCase fold (ps.name p) (ps.name q) = true → p = q := fun p hp q hq =>
    h.names p (List.mem_of_mem_erase hp) q (List.mem_of_mem_erase hq)
  constructor
  · rfl
  · by_cases hp : player ∈ w.players
    · obtain ⟨l, hl, hholds⟩ := h.holds.remove (List.mem_map_of_mem hp)
      rw [← hmap] at hholds
      exact ⟨l, hl, h.nodup.erase player, hnames, hholds⟩
    · have hnot : ps.entity player ∉ w.players.map ps.entity := by
        rwa [List.mem_map_of_injective ps.entity_injective]
      have hholds : w.playerEntities.Holds ((w.players.erase player).map ps.entity) := by
        rw [hmap, List.erase_of_not_mem hnot]
        exact h.holds
      exact ⟨_, h.holds.remove_of_notMem hnot, h.nodup.erase player, hnames, hholds⟩

private theorem triple_removeEntity {player : Player} :
    Triple (Erased ps fold players player) (removeEntity ps player)
      (fun _ => With ps fold (players.erase player)) E := by
  apply triple_get
  intro w hw
  obtain ⟨hplayers, l, hl, hregistered⟩ := hw
  rw [hl]
  intro s hs
  rw [hs]
  exact ⟨hregistered, hplayers⟩

private theorem triple_unregister {player : Player} {next : Prog Player Entity β}
    (h : Triple (With ps fold (players.erase player)) next R E) :
    Triple (With ps fold players) (do erasePlayer player; removeEntity ps player; next) R E := by
  have herase : Triple (With ps fold players) (erasePlayer player)
      (fun _ => Erased ps fold players player) E := by
    apply triple_modify
    intro w hw
    obtain ⟨hregistered, rfl⟩ := hw
    exact hregistered.erased player
  exact triple_bind herase fun _ => triple_bind triple_removeEntity fun _ => h

private theorem triple_removePlayer {isOpen : Player → Bool} {player : Player}
    {closeChannel : Bool} :
    Triple (With ps fold players) (removePlayer ps isOpen player closeChannel)
      (fun _ => With ps fold (players.erase player)) E := by
  apply triple_unregister
  split
  · exact triple_close
  · exact triple_pure fun _ hw => hw

private theorem triple_discard {player : Player} :
    Triple (Registered ps fold) (discard ps player) (fun _ => Registered ps fold) E := by
  intro w hw
  have h : Triple (With ps fold w.players) (discard ps player)
      (fun _ => With ps fold (w.players.erase player)) E := triple_unregister triple_close
  exact h.weaken (fun _ h => h) (fun _ _ h => h.1) w ⟨hw, rfl⟩

private theorem triple_replace {isOpen : Player → Bool} {player existing : Player}
    {rest : List Player} :
    Triple (Replacing ps fold player (existing :: rest)) (removePlayer ps isOpen existing true)
      (fun _ => Replacing ps fold player rest) E := by
  intro w hw
  obtain ⟨hregistered, hrest⟩ := hw
  have h : Triple (With ps fold w.players) (removePlayer ps isOpen existing true)
      (fun _ => With ps fold (w.players.erase existing)) E := triple_removePlayer
  have hkeep : ∀ (a : Unit) w', With ps fold (w.players.erase existing) w' →
      Replacing ps fold player rest w' := by
    intro _ w' hw'
    obtain ⟨hregistered', hplayers⟩ := hw'
    constructor
    · exact hregistered'
    · intro p hp hname
      rw [hplayers] at hp
      obtain ⟨hne, hp⟩ := hregistered.nodup.mem_erase_iff.mp hp
      exact (List.mem_cons.mp (hrest p hp hname)).resolve_left hne
  exact h.weaken (fun _ h => h) hkeep w ⟨hregistered, rfl⟩

omit [DecidableEq Player] in
private theorem triple_addEntity {player : Player} :
    Triple (Entering ps fold player) (addEntity ps player) (fun added w =>
      if added then Registered ps fold w else Entering ps fold player w) E := by
  apply triple_get
  intro w hw
  obtain ⟨players, hplayers, hregistered, hnames⟩ := hw
  apply triple_bind (Q := fun _ t =>
    t = { w with playerEntities := (w.playerEntities.add (ps.entity player)).2 })
  · intro s hs
    rfl
  · intro _
    apply triple_pure
    intro s hs
    rw [hs]
    have hnot := notMem_of_names hnames
    cases hadd : (w.playerEntities.add (ps.entity player)).1 with
    | false =>
      rw [EntityList.add_eq_of_false hadd]
      exact ⟨players, hplayers, hregistered, hnames⟩
    | true =>
      have hentity : ps.entity player ∉ players.map ps.entity := by
        rwa [List.mem_map_of_injective ps.entity_injective]
      have hholds := hregistered.holds.add hentity hadd
      constructor
      · show w.players.Nodup
        rw [hplayers]
        rw [List.nodup_append]
        refine ⟨hregistered.nodup, by simp, ?_⟩
        intro p hp q hq
        rw [List.mem_singleton.mp hq]
        exact ne_of_mem_of_not_mem hp hnot
      · show ∀ p ∈ w.players, ∀ q ∈ w.players, _
        rw [hplayers]
        intro p hp q hq hname
        rw [List.mem_append, List.mem_singleton] at hp hq
        rcases hp with hp | rfl <;> rcases hq with hq | rfl
        · exact hregistered.names p hp q hq hname
        · rw [hnames p hp] at hname
          cases hname
        · rw [equalsIgnoreCase_comm, hnames q hq] at hname
          cases hname
        · rfl
      · show EntityList.Holds _ (w.players.map ps.entity)
        rw [hplayers, List.map_append]
        have hperm : (ps.entity player :: players.map ps.entity).Perm
            (players.map ps.entity ++ [ps.entity player]) :=
          (List.perm_append_singleton _ _).symm
        exact hholds.of_perm hperm

private theorem triple_register {r : Registration Player} {player : Player} :
    Triple (Registered ps fold) (register ps fold r player) (fun _ => Registered ps fold)
      fun _ => Registered ps fold := by
  apply triple_get
  intro w hw
  apply triple_bind (Q := fun _ => Replacing ps fold player [])
  · have hstart : ∀ t, t = w → Replacing ps fold player ((r.iteration.order w.players).filter
        fun existing => equalsIgnoreCase fold (ps.name existing) (ps.name player)) t := by
      intro t ht
      rw [ht]
      constructor
      · exact hw
      · intro p hp hname
        exact List.mem_filter.mpr ⟨(r.iteration.perm w.players).mem_iff.mpr hp, hname⟩
    exact (triple_forM fun existing rest => triple_replace).weaken hstart fun _ _ h => h
  intro _
  apply triple_bind triple_insertPlayer
  intro _
  apply triple_bind triple_addEntity
  intro added
  cases added with
  | true => exact triple_bind triple_playerCode fun _ => triple_pure fun _ hw => hw
  | false =>
    apply triple_bind (Q := fun _ => Registered ps fold)
    · apply triple_modify
      intro w hw
      obtain ⟨players, hplayers, hregistered, hnames⟩ := hw
      rw [hplayers, List.erase_append_right _ (notMem_of_names hnames), List.erase_cons_head,
        List.append_nil]
      exact hregistered
    · intro _
      apply triple_bind (Q := fun _ => Registered ps fold)
      · exact triple_modify fun w hw => ⟨hw.nodup, hw.names, hw.holds⟩
      · exact fun _ => triple_pure fun _ hw => hw

private theorem triple_registerPlayer {r : Registration Player} {player : Player} :
    Triple (Registered ps fold) (registerPlayer ps fold r player) (fun _ => Registered ps fold) E := by
  apply triple_tryCatch triple_register
  intro _
  exact triple_bind triple_discard fun _ => triple_pure fun _ hw => hw

private theorem triple_registerQueued {registration : ℕ → Registration Player}
    {queue : List Player} :
    Triple (Registered ps fold) (registerQueued ps fold registration queue)
      (fun _ => Registered ps fold) E := by
  induction queue with
  | nil => exact triple_pure fun _ hw => hw
  | cons player rest ih =>
    apply triple_bind (Q := fun _ => Registered ps fold)
    · exact triple_modify fun w hw => ⟨hw.nodup, hw.names, hw.holds⟩
    · intro _
      exact triple_bind triple_registerPlayer fun _ => ih

private theorem triple_tick {t : WorldTick Player} :
    Triple (Registered ps fold) (tick ps fold t) (fun _ => Registered ps fold) E := by
  apply triple_get
  intro w hw
  apply triple_bind (Q := fun _ => Registered ps fold)
  · intro s hs
    rw [hs]
    exact triple_registerQueued w hw
  intro _
  apply triple_get
  intro w hw
  apply triple_bind (Q := fun _ => Registered ps fold)
  · intro s hs
    rw [hs]
    apply triple_forM (I := fun _ => Registered ps fold) _ w hw
    intro player _
    split
    · exact triple_pure fun _ hw => hw
    · intro s hs
      have h : Triple (With ps fold s.players) (removePlayer ps t.isOpen player false)
          (fun _ => With ps fold (s.players.erase player)) E := triple_removePlayer
      exact h.weaken (fun _ h => h) (fun _ _ h => h.1) s ⟨hs, rfl⟩
  intro _
  apply triple_get
  intro w hw s hs
  rw [hs]
  apply triple_forM (I := fun _ => Registered ps fold) _ w hw
  intro player _
  exact triple_tryCatch triple_playerCode fun _ => triple_discard

private theorem triple_call {c : WorldCall Player} :
    Triple (Registered ps fold) (call ps fold c) (fun _ => Registered ps fold) E := by
  cases c with
  | addPlayer player => exact triple_modify fun w hw => ⟨hw.nodup, hw.names, hw.holds⟩
  | addPlayerNow r player =>
    exact triple_bind triple_registerPlayer fun _ => triple_pure fun _ hw => hw
  | tick t => exact triple_tick

theorem registered_of_calls (ps : WorldPlayers Player Entity) (fold : Char → Char)
    (calls : List (WorldCall Player)) :
    ∃ w, (calls.forM (call ps fold)).run {} = .ok () w ∧ Registered ps fold w := by
  have hstart : Registered ps fold ({} : World Player Entity) :=
    ⟨List.nodup_nil, by simp, EntityList.holds_nil⟩
  have hcalls : Triple (Registered ps fold) (calls.forM (call ps fold))
      (fun _ => Registered ps fold) fun _ _ => False :=
    triple_forM (I := fun _ => Registered ps fold) fun _ _ => triple_call
  obtain ⟨_, w, hrun, hw⟩ := hcalls.returns hstart
  exact ⟨w, hrun, hw⟩

/-- Whatever the order of the calls and whoever fails, the set of players and the slots match. -/
theorem slots_of_calls (ps : WorldPlayers Player Entity) (fold : Char → Char)
    (calls : List (WorldCall Player)) :
    ∃ w, (calls.forM (call ps fold)).run {} = .ok () w ∧
      (∀ p ∈ w.players, ∀ q ∈ w.players,
        equalsIgnoreCase fold (ps.name p) (ps.name q) = true → p = q) ∧
      (∀ p ∈ w.players, ∃ i < 2000, w.playerEntities.values i = some (ps.entity p) ∧
        w.playerEntities.index (ps.entity p) = i + 1) ∧
      (∀ i e, w.playerEntities.values i = some e →
        ∃ p ∈ w.players, e = ps.entity p ∧ w.playerEntities.index e = i + 1) ∧
      (∀ e, (∀ p ∈ w.players, e ≠ ps.entity p) → w.playerEntities.index e = -1) ∧
      ∀ index, w.getPlayer index = none ∨
        ∃! p, p ∈ w.players ∧ w.getPlayer index = some (ps.entity p) := by
  obtain ⟨w, hrun, hw⟩ := registered_of_calls ps fold calls
  refine ⟨w, hrun, hw.names, ?_, ?_, ?_, ?_⟩
  · exact fun p hp => hw.holds.slot _ (List.mem_map_of_mem hp)
  · intro i e hvalue
    obtain ⟨-, he, hindex⟩ := hw.holds.value i e hvalue
    obtain ⟨p, hp, rfl⟩ := List.mem_map.mp he
    exact ⟨p, hp, rfl, hindex⟩
  · intro e he
    apply hw.holds.index
    intro hmem
    obtain ⟨p, hp, hpe⟩ := List.mem_map.mp hmem
    exact he p hp hpe.symm
  · intro index
    obtain hnone | ⟨e, he, hsome⟩ := hw.holds.get index
    · exact .inl hnone
    · obtain ⟨p, hp, rfl⟩ := List.mem_map.mp he
      right
      refine ⟨p, ⟨hp, hsome⟩, ?_⟩
      rintro q ⟨-, hq⟩
      exact ps.entity_injective (Option.some.inj (hq.symm.trans hsome))

end World
end OpenNXT.Model
