import OpenNXT.Net.Js5InFlight
import Mathlib.Data.List.Chain

/-! Responses for the same archive follow each other on a connection. -/
namespace OpenNXT.Net
open Buffer

def Target.archiveKey (t : Target) : ArchiveKey := ⟨t.index, t.archive⟩

namespace Js5Session

/-- Blocks that cut a response one after the other. -/
inductive Cuts : PendingResponse → List Block → PendingResponse → Prop
  | nil (r : PendingResponse) : Cuts r [] r
  | snoc {r r' : PendingResponse} {blocks : List Block} (h : Cuts r blocks r') (xor : Word) (n : ℕ)
      (hn : 0 < n) (hdata : n ≤ r'.data.length) (hremaining : n ≤ r'.remaining) :
      Cuts r (blocks ++ [⟨xor, r', r'.cut n⟩]) (r'.cut n)

/-- A response as it is loaded. -/
def Loaded (env : Environment) (t : Target) (r : PendingResponse) : Prop :=
  ∃ q loggedIn, load env loggedIn q = .loaded r ∧ r.target = t

/-- The blocks of a whole response, from its first to its last. -/
def Complete (env : Environment) (t : Target) (blocks : List Block) : Prop :=
  ∃ r r', Loaded env t r ∧ Cuts r blocks r' ∧ r'.Ended

/-- The first blocks of a response. -/
def Begun (env : Environment) (t : Target) (blocks : List Block) : Prop :=
  ∃ r r', Loaded env t r ∧ Cuts r blocks r'

/-- Complete responses one after the other. -/
def Clean (env : Environment) (t : Target) (blocks : List Block) : Prop :=
  ∃ responses : List (List Block), blocks = responses.flatten ∧ ∀ bs ∈ responses, Complete env t bs

/-- Complete responses one after the other, and then the blocks of the one that is being sent. -/
def Orderly (env : Environment) (t : Target) (blocks : List Block) : Prop :=
  Clean env t blocks ∨
    ∃ done last, blocks = done ++ last ∧ Clean env t done ∧ Begun env t last

section Cuts
variable {env : Environment} {t : Target} {r r' r'' : PendingResponse} {blocks blocks' : List Block}

theorem Cuts.trans (h : Cuts r blocks r') (h' : Cuts r' blocks' r'') :
    Cuts r (blocks ++ blocks') r'' := by
  induction h' with
  | nil => rwa [List.append_nil]
  | snoc _ xor n hn hdata hremaining ih =>
    rw [← List.append_assoc]
    exact ih.snoc xor n hn hdata hremaining

/-- What went out is the front of the data. -/
theorem payload_of_cuts (h : Cuts r blocks r') :
    ∃ n, blocks.flatMap Block.payload = r.data.take n ∧ r' = r.cut n ∧ n ≤ r.data.length ∧
      (n ≤ r.remaining ∨ n = 0) := by
  induction h with
  | nil =>
    refine ⟨0, rfl, ?_, Nat.zero_le _, Or.inr rfl⟩
    unfold PendingResponse.cut
    simp
  | snoc _ xor n hn hdata hremaining ih =>
    obtain ⟨m, hpayload, hcut, hm, hle⟩ := ih
    subst hcut
    simp only [PendingResponse.cut, List.length_drop] at hdata hremaining
    refine ⟨m + n, ?_, ?_, by omega, Or.inl (by omega)⟩
    · have hsize : ((r.cut m).remaining - ((r.cut m).cut n).remaining).toNat = n := by
        simp only [PendingResponse.cut]
        omega
      rw [List.flatMap_append, hpayload, List.flatMap_singleton]
      unfold Block.payload
      rw [hsize, List.take_add]
      rfl
    · unfold PendingResponse.cut
      simp only [List.drop_drop]
      congr 1
      push_cast
      omega

private theorem Cuts.single (xor : Word) (r : PendingResponse) (n : ℕ) (hn : 0 < n)
    (hdata : n ≤ r.data.length) (hremaining : n ≤ r.remaining) :
    Cuts r [⟨xor, r, r.cut n⟩] (r.cut n) :=
  (Cuts.nil r).snoc xor n hn hdata hremaining

/-- A response that is written at once is complete. -/
theorem cuts_inlineBlocks (xor : Word) (r : PendingResponse)
    (hfits : (Js5Encoder.encodeBlocks xor r.priority r.index r.archive r.data r.remaining).isSome) :
    ∃ r', Cuts r (inlineBlocks xor r) r' ∧ r'.Ended := by
  induction hn : r.data.length using Nat.strongRecOn generalizing r with
  | _ n ih =>
    rw [inlineBlocks]
    by_cases hend : r.Ended
    · rw [dif_pos hend]
      exact ⟨r, .nil r, hend⟩
    · have hdata := List.length_pos_iff.mpr (not_or.mp hend).1
      have hremaining := (not_or.mp hend).2
      have hmore : ¬ (r.data = [] ∨ r.remaining ≤ 0) := hend
      rw [Js5Encoder.encodeBlocks, dif_neg hmore] at hfits
      rw [dif_neg hend]
      obtain ⟨k, hk⟩ : ∃ k : ℕ, min (maxResponseBlockPayloadBytes : ℤ) r.remaining = k :=
        ⟨_, (Int.toNat_of_nonneg (by unfold maxResponseBlockPayloadBytes; omega)).symm⟩
      have hpos : 0 < k ∧ (k : ℤ) ≤ r.remaining := by
        unfold maxResponseBlockPayloadBytes at hk
        omega
      simp only [hk] at hfits ⊢
      split_ifs at hfits with hshort
      · cases hfits
      · have hsmaller : (r.cut k).data.length < n := by
          simp only [PendingResponse.cut, List.length_drop]
          omega
        have hrest : (Js5Encoder.encodeBlocks xor (r.cut k).priority (r.cut k).index
            (r.cut k).archive (r.cut k).data (r.cut k).remaining).isSome := by
          obtain ⟨bytes, hbytes⟩ := Option.isSome_iff_exists.mp hfits
          obtain ⟨rest, hrest, -⟩ := Option.bind_eq_some_iff.mp hbytes
          exact Option.isSome_iff_exists.mpr ⟨rest, hrest⟩
        obtain ⟨r', hcuts, hended⟩ := ih _ hsmaller (r.cut k) hrest rfl
        have hfirst := Cuts.single xor r k hpos.1 (by omega) hpos.2
        exact ⟨r', hfirst.trans hcuts, hended⟩

end Cuts

section Clean
variable {env : Environment} {t : Target} {blocks last : List Block}

theorem Clean.nil (env : Environment) (t : Target) : Clean env t [] :=
  ⟨[], rfl, fun _ hbs => (List.not_mem_nil hbs).elim⟩

theorem Clean.append (h : Clean env t blocks) (hlast : Complete env t last) :
    Clean env t (blocks ++ last) := by
  obtain ⟨responses, rfl, hall⟩ := h
  refine ⟨responses ++ [last], by simp, ?_⟩
  intro bs hbs
  rcases List.mem_append.mp hbs with hbs | hbs
  · exact hall bs hbs
  · rw [List.mem_singleton.mp hbs]
    exact hlast

end Clean

section Follows
variable {env : Environment} {t : Target} {r r' : PendingResponse} {blocks : List Block}

/-- A block goes on with the response of the one before, or that response is over. -/
def Follows (b b' : Block) : Prop := b'.before = b.after ∨ b.after.Ended

instance : DecidableRel Follows := fun _ _ => inferInstanceAs (Decidable (_ ∨ _))

private theorem Cuts.follows (h : Cuts r blocks r') :
    blocks.IsChain Follows ∧ ∀ b ∈ blocks.getLast?, b.after = r' := by
  induction h with
  | nil => simp
  | snoc _ xor n _ _ _ ih =>
    constructor
    · apply ih.1.append (List.isChain_singleton _)
      intro b hb b' hb'
      cases hb'
      exact Or.inl (ih.2 b hb).symm
    · intro b hb
      rw [List.getLast?_append_of_ne_nil _ (List.cons_ne_nil _ _)] at hb
      cases hb
      rfl

private theorem Clean.follows (h : Clean env t blocks) :
    blocks.IsChain Follows ∧ ∀ b ∈ blocks.getLast?, b.after.Ended := by
  obtain ⟨responses, rfl, hall⟩ := h
  induction responses with
  | nil => simp
  | cons bs responses ih =>
    obtain ⟨hchain, hlast⟩ := ih fun x hx => hall x (List.mem_cons_of_mem _ hx)
    obtain ⟨r, r', -, hcuts, hended⟩ := hall bs List.mem_cons_self
    obtain ⟨hfirst, hend⟩ := hcuts.follows
    rw [List.flatten_cons]
    constructor
    · apply hfirst.append hchain
      intro b hb b' _
      exact Or.inr (hend b hb ▸ hended)
    · intro b hb
      rw [List.getLast?_append] at hb
      cases hmore : responses.flatten.getLast? with
      | none =>
        rw [hmore] at hb
        exact hend b hb ▸ hended
      | some b' =>
        rw [hmore] at hb
        cases hb
        exact hlast b hmore

/-- A block of another response comes only after the last block of the first. -/
theorem Orderly.follows (h : Orderly env t blocks) : blocks.IsChain Follows := by
  rcases h with hclean | ⟨done, last, rfl, hclean, r, r', -, hcuts⟩
  · exact hclean.follows.1
  · apply hclean.follows.1.append hcuts.follows.1
    intro b hb b' _
    exact Or.inr (hclean.follows.2 b hb)

end Follows

/-- The blocks that carry the header of a target. -/
def blocksFor (t : Target) (log : List Block) : List Block := log.filter fun b => b.target = t

section Lane
variable {env : Environment} {p : Bool} {b b' : Books} {log blocks : List Block}

private theorem blocksFor_append (t : Target) (log blocks : List Block) :
    blocksFor t (log ++ blocks) = blocksFor t log ++ blocksFor t blocks :=
  List.filter_append ..

private theorem blocksFor_of_all {t : Target} (h : ∀ b ∈ blocks, b.target = t) :
    blocksFor t blocks = blocks := by
  apply List.filter_eq_self.mpr
  intro b hb
  simp [h b hb]

private theorem blocksFor_of_ne {t u : Target} (hne : u ≠ t) (h : ∀ b ∈ blocks, b.target = u) :
    blocksFor t (log ++ blocks) = blocksFor t log := by
  have hnil : blocksFor t blocks = [] := by
    apply List.filter_eq_nil_iff.mpr
    intro b hb
    simp [h b hb, hne]
  rw [blocksFor_append, hnil, List.append_nil]

private theorem target_eq_iff {r : PendingResponse} {t : Target} (h : r.priority = t.priority) :
    r.target = t ↔ r.archiveKey = t.archiveKey := by
  constructor
  · rintro rfl
    rfl
  · intro hkey
    cases t
    cases r
    simp_all [PendingResponse.target, PendingResponse.archiveKey, Target.archiveKey]

/-- The first response in hand is the only one with its key. -/
theorem Books.Exact.notMem {I : Finset ArchiveKey} {Q : List RequestFile}
    {H : List PendingResponse} {L : List ArchiveKey} {r : PendingResponse}
    (h : Books.Exact ⟨I, Q, r :: H, L⟩) :
    r.archiveKey ∉ H.map PendingResponse.archiveKey ∧ r.archiveKey ∉ L := by
  have hnodup := (List.nodup_append.mp h.nodup).2.1
  rw [List.map_cons, List.cons_append, List.nodup_cons, List.mem_append, not_or] at hnodup
  exact hnodup.1

/-- Where a lane is with the blocks of each target. -/
structure Streams (env : Environment) (p : Bool) (b : Books) (log : List Block) : Prop where
  exact : b.Exact
  requests : ∀ q ∈ b.requests, q.priority = p
  held : ∀ r ∈ b.held, r.priority = p
  sending : ∀ r ∈ b.held, ∃ done last r₀, blocksFor r.target log = done ++ last ∧
    Clean env r.target done ∧ Loaded env r.target r₀ ∧ Cuts r₀ last r
  clean : ∀ t : Target, t.priority = p → t.archiveKey ∉ b.held.map PendingResponse.archiveKey →
    t.archiveKey ∉ b.lost → Clean env t (blocksFor t log)
  orderly : ∀ t : Target, t.priority = p → Orderly env t (blocksFor t log)

/-- A turn that writes nothing, and holds no other response. -/
private theorem Streams.move (h : Streams env p b log) (hexact : b'.Exact)
    (hrequests : ∀ q ∈ b'.requests, q.priority = p) (hheld : ∀ r ∈ b'.held, r ∈ b.held)
    (hout : ∀ k, k ∉ b'.held.map PendingResponse.archiveKey → k ∉ b'.lost →
      k ∉ b.held.map PendingResponse.archiveKey ∧ k ∉ b.lost) :
    Streams env p b' (log ++ []) := by
  rw [List.append_nil]
  constructor
  · exact hexact
  · exact hrequests
  · exact fun r hr => h.held r (hheld r hr)
  · exact fun r hr => h.sending r (hheld r hr)
  · intro t ht hk hl
    obtain ⟨hk', hl'⟩ := hout _ hk hl
    exact h.clean t ht hk' hl'
  · exact h.orderly

section Turn
variable {I : Finset ArchiveKey} {Q : List RequestFile} {H : List PendingResponse}
  {L : List ArchiveKey}

private theorem Streams.load {q : RequestFile} {r : PendingResponse} {loggedIn : Bool}
    (h : Streams env p ⟨I, q :: Q, H, L⟩ log) (hexact : Books.Exact ⟨I, Q, r :: H, L⟩)
    (hl : load env loggedIn q = .loaded r) : Streams env p ⟨I, Q, r :: H, L⟩ (log ++ []) := by
  have hp : r.priority = p := (priority_load hl).trans (h.requests q List.mem_cons_self)
  obtain ⟨hheld, hlost⟩ := hexact.notMem
  rw [List.append_nil]
  constructor
  · exact hexact
  · exact fun x hx => h.requests x (List.mem_cons_of_mem _ hx)
  · intro x hx
    rcases List.mem_cons.mp hx with rfl | hx
    · exact hp
    · exact h.held x hx
  · intro x hx
    rcases List.mem_cons.mp hx with rfl | hx
    · -- Its key waited with the request, so nothing of it is being sent.
      have hclean := h.clean x.target hp hheld hlost
      exact ⟨_, [], x, (List.append_nil _).symm, hclean, ⟨q, loggedIn, hl, rfl⟩, .nil x⟩
    · exact h.sending x hx
  · intro t ht hk hlost
    apply h.clean t ht ?_ hlost
    intro hmem
    exact hk (List.mem_cons_of_mem _ hmem)
  · exact h.orderly

private theorem Streams.inline {q : RequestFile} {r : PendingResponse} {loggedIn : Bool}
    {xor : Word} (h : Streams env p ⟨I, Q, H, L⟩ log) (hnew : q.archiveKey ∉ I)
    (hq : q.priority = p) (hl : Js5Session.load env loggedIn q = .loaded r)
    (hfits : (Js5Encoder.encodeBlocks xor r.priority r.index r.archive r.data r.remaining).isSome) :
    Streams env p ⟨I, Q, H, L⟩ (log ++ inlineBlocks xor r) := by
  have hkey := archiveKey_load hl
  have hp : r.priority = p := (priority_load hl).trans hq
  obtain ⟨r', hcuts, hended⟩ := cuts_inlineBlocks xor r hfits
  have hcomplete : Complete env r.target (inlineBlocks xor r) :=
    ⟨r, r', ⟨q, loggedIn, hl, rfl⟩, hcuts, hended⟩
  have hblocks : ∀ b ∈ inlineBlocks xor r, b.target = r.target :=
    fun b hb => target_of_inlineBlocks hb
  have hout : r.archiveKey ∉ Books.keys ⟨I, Q, H, L⟩ := by
    rw [hkey]
    intro hmem
    exact hnew ((h.exact.mem_iff _).mpr hmem)
  simp only [Books.keys, List.mem_append, not_or] at hout
  -- Nothing of the target is being sent.
  have hself : Clean env r.target (blocksFor r.target (log ++ inlineBlocks xor r)) := by
    have hclean := h.clean r.target hp hout.2.1 hout.2.2
    rw [blocksFor_append, blocksFor_of_all hblocks]
    exact hclean.append hcomplete
  have hother : ∀ t, r.target ≠ t → blocksFor t (log ++ inlineBlocks xor r) = blocksFor t log :=
    fun t hne => blocksFor_of_ne hne hblocks
  constructor
  · exact h.exact
  · exact h.requests
  · exact h.held
  · intro x hx
    have hne : r.target ≠ x.target := by
      intro heq
      apply hout.2.1
      have hsame : x.archiveKey = r.archiveKey :=
        (target_eq_iff ((h.held x hx).trans hp.symm)).mp heq.symm
      exact hsame ▸ List.mem_map_of_mem hx
    rw [hother _ hne]
    exact h.sending x hx
  · intro t ht hk hlost
    by_cases heq : r.target = t
    · rw [← heq]
      exact hself
    · rw [hother t heq]
      exact h.clean t ht hk hlost
  · intro t ht
    by_cases heq : r.target = t
    · rw [← heq]
      exact Or.inl hself
    · rw [hother t heq]
      exact h.orderly t ht

private theorem Streams.send {r : PendingResponse} {xor : Word} {n : ℕ}
    (h : Streams env p ⟨I, Q, r :: H, L⟩ log) (hexact : Books.Exact ⟨I, Q, r.cut n :: H, L⟩)
    (hn : 0 < n) (hdata : n ≤ r.data.length) (hremaining : n ≤ r.remaining) :
    Streams env p ⟨I, Q, r.cut n :: H, L⟩ (log ++ [⟨xor, r, r.cut n⟩]) := by
  have hp : r.priority = p := h.held r List.mem_cons_self
  obtain ⟨hheld, -⟩ := h.exact.notMem
  have hblocks : ∀ b ∈ [Block.mk xor r (r.cut n)], b.target = r.target := by
    intro b hb
    rw [List.mem_singleton.mp hb]
    rfl
  obtain ⟨done, last, r₀, hsplit, hclean, hloaded, hcuts⟩ := h.sending r List.mem_cons_self
  have hcuts' := hcuts.snoc xor n hn hdata hremaining
  have hself : blocksFor r.target (log ++ [⟨xor, r, r.cut n⟩]) =
      done ++ (last ++ [⟨xor, r, r.cut n⟩]) := by
    rw [blocksFor_append, blocksFor_of_all hblocks, hsplit, List.append_assoc]
  have hother : ∀ t, r.target ≠ t → blocksFor t (log ++ [⟨xor, r, r.cut n⟩]) = blocksFor t log :=
    fun t hne => blocksFor_of_ne hne hblocks
  constructor
  · exact hexact
  · exact h.requests
  · intro x hx
    rcases List.mem_cons.mp hx with rfl | hx
    · exact hp
    · exact h.held x (List.mem_cons_of_mem _ hx)
  · intro x hx
    rcases List.mem_cons.mp hx with rfl | hx
    · exact ⟨done, _, r₀, hself, hclean, hloaded, hcuts'⟩
    · have hx' := h.held x (List.mem_cons_of_mem _ hx)
      have hne : r.target ≠ x.target := by
        intro heq
        apply hheld
        have hsame : x.archiveKey = r.archiveKey := (target_eq_iff (hx'.trans hp.symm)).mp heq.symm
        exact hsame ▸ List.mem_map_of_mem hx
      rw [hother _ hne]
      exact h.sending x (List.mem_cons_of_mem _ hx)
  · intro t ht hk hlost
    have hne : r.target ≠ t := by
      rintro rfl
      exact hk List.mem_cons_self
    rw [hother t hne]
    exact h.clean t ht hk hlost
  · intro t ht
    by_cases heq : r.target = t
    · rw [← heq, hself]
      exact Or.inr ⟨done, _, rfl, hclean, r₀, _, hloaded, hcuts'⟩
    · rw [hother t heq]
      exact h.orderly t ht

private theorem Streams.finish {r : PendingResponse} (h : Streams env p ⟨I, Q, r :: H, L⟩ log)
    (hexact : Books.Exact ⟨I.erase r.archiveKey, Q, H, L⟩) (hr : r.remaining ≤ 0) :
    Streams env p ⟨I.erase r.archiveKey, Q, H, L⟩ (log ++ []) := by
  have hp : r.priority = p := h.held r List.mem_cons_self
  rw [List.append_nil]
  constructor
  · exact hexact
  · exact h.requests
  · exact fun x hx => h.held x (List.mem_cons_of_mem _ hx)
  · exact fun x hx => h.sending x (List.mem_cons_of_mem _ hx)
  · intro t ht hk hlost
    by_cases heq : r.target = t
    · subst heq
      obtain ⟨done, last, r₀, hsplit, hclean, hloaded, hcuts⟩ := h.sending r List.mem_cons_self
      rw [hsplit]
      exact hclean.append ⟨r₀, r, hloaded, hcuts, Or.inr hr⟩
    · apply h.clean t ht ?_ hlost
      intro hmem
      rcases List.mem_cons.mp hmem with hkey | hmem
      · exact heq ((target_eq_iff (hp.trans ht.symm)).mpr hkey.symm)
      · exact hk hmem
  · exact h.orderly

end Turn

/-- What a turn does to the blocks of each target. -/
theorem Turn.streams (ht : Turn env p b blocks b') (h : Streams env p b log) :
    Streams env p b' (log ++ blocks) := by
  have hexact := ht.exact h.exact
  cases ht with
  | accept q hq hnew =>
    apply h.move hexact
    · intro x hx
      rcases List.mem_append.mp hx with hx | hx
      · exact h.requests x hx
      · rw [List.mem_singleton.mp hx]
        exact hq
    · exact fun r hr => hr
    · exact fun k hk hlost => ⟨hk, hlost⟩
  | inline q hq hnew hl xor hfits => exact h.inline hnew hq hl hfits
  | skip q =>
    apply h.move hexact
    · exact fun x hx => h.requests x (List.mem_cons_of_mem _ hx)
    · exact fun r hr => hr
    · exact fun k hk hlost => ⟨hk, hlost⟩
  | load q hl => exact h.load hexact hl
  | lose q =>
    apply h.move hexact
    · exact fun x hx => h.requests x (List.mem_cons_of_mem _ hx)
    · exact fun r hr => hr
    · exact fun k hk hlost => ⟨hk, fun hmem => hlost (List.mem_cons_of_mem _ hmem)⟩
  | send xor r n hn hdata hremaining => exact h.send hexact hn hdata hremaining
  | drop r =>
    apply h.move hexact
    · exact h.requests
    · exact fun x hx => List.mem_cons_of_mem _ hx
    · intro k hk hlost
      constructor
      · intro hmem
        rcases List.mem_cons.mp hmem with rfl | hmem
        · exact hlost List.mem_cons_self
        · exact hk hmem
      · exact fun hmem => hlost (List.mem_cons_of_mem _ hmem)
  | finish r hr => exact h.finish hexact hr
  | pass hperm =>
    apply h.move hexact
    · exact h.requests
    · exact fun x hx => hperm.mem_iff.mpr hx
    · intro k hk hlost
      exact ⟨fun hmem => hk ((hperm.map _).mem_iff.mp hmem), hlost⟩

theorem Streams.start : Streams env p {} [] where
  exact := rfl
  requests _ hq := (List.not_mem_nil hq).elim
  held _ hr := (List.not_mem_nil hr).elim
  sending _ hr := (List.not_mem_nil hr).elim
  clean t _ _ _ := .nil env t
  orderly t _ := Or.inl (.nil env t)

theorem Turns.streams (ht : Turns env p b blocks b') (h : Streams env p b []) :
    Streams env p b' blocks := by
  induction ht with
  | refl => exact h
  | tail _ hturn ih => exact hturn.streams ih

end Lane

section Run
variable {env : Environment} {allowed : Session × Thread → Prop}

/-- In every run that lets no duplicate through, the blocks with one header are complete responses
one after the other, and then those of the response that is being sent. -/
theorem orderly_of_run (env : Environment) (c : Session × Thread) (log : List Block)
    (h : Run env (fun s r => ¬ LetsThrough s r) (fun _ => True) c log) (t : Target) :
    Orderly env t (blocksFor t log) := by
  obtain ⟨L, hturns, -⟩ := turns_of_run h t.priority
  have hstreams := (hturns.streams .start).orderly t rfl
  have hfilter : blocksFor t (log.filter fun b => b.before.priority = t.priority) =
      blocksFor t log := by
    unfold blocksFor
    rw [List.filter_filter]
    apply List.filter_congr
    intro b _
    have hpriority : b.target = t → b.before.priority = t.priority := congrArg Target.priority
    by_cases hb : b.target = t
    · simp [hb, hpriority hb]
    · simp [hb]
  rwa [hfilter] at hstreams

/-- The table is sent in two blocks. -/
theorem orderly_of_run_table : ∃ c log,
    Run tableEnvironment (fun s r => ¬ LetsThrough s r) (fun _ => True) c log ∧ log.length = 2 ∧
      Orderly tableEnvironment tableRequest.target (blocksFor tableRequest.target log) := by
  have hcall : Run tableEnvironment (fun s r => ¬ LetsThrough s r) (fun _ => True) _ _ :=
    (Run.start.enqueue tableRequest (by unfold LetsThrough; decide)).call 8
  have hidle : Run tableEnvironment (fun s r => ¬ LetsThrough s r) (fun _ => True) (_, .idle) _ :=
    hcall.runFor 6
  have hrun := (hidle.call 100).runFor 3
  exact ⟨_, _, hrun, by decide, orderly_of_run tableEnvironment _ _ hrun tableRequest.target⟩

/-- Two requests for the table are let through, and the first block of the second response comes
between the blocks of the first. -/
theorem not_orderly_duplicate : ∃ c log,
    Run tableEnvironment (fun _ _ => True) (fun _ => True) c log ∧
      ¬ Orderly tableEnvironment tableRequest.target (blocksFor tableRequest.target log) := by
  have hcall : Run tableEnvironment (fun _ _ => True) (fun _ => True) _ _ :=
    ((Run.start.enqueue tableRequest trivial).enqueue tableRequest trivial).call 8
  have hidle : Run tableEnvironment (fun _ _ => True) (fun _ => True) (_, .idle) _ :=
    hcall.runFor 6
  refine ⟨_, _, (hidle.call 8).runFor 3, ?_⟩
  intro horderly
  have hchain := horderly.follows
  revert hchain
  decide

end Run

end Js5Session

end OpenNXT.Net
