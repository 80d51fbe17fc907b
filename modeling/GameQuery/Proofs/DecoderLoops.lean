import GameQuery.Proofs.ReadItems
import GameQuery.Proofs.ReplyGrammar

namespace GameQuery

/-!
# Loops that read

A decoder goes from one read to the next. What it reads may depend on everything before, a read
that has failed included. A loop runs a decoder again and again, and ends if every pass that is
followed by another one has taken an item: a read that fails has taken nothing, and one that does
not has taken the item.
-/

open Reader

variable {σ α : Type}

theorem Reader.exists_lossyTextOrRest (s : List UInt8) :
    ∃ text rest, lossyTextOrRest s = .ok text rest := by
  rw [lossyTextOrRest]
  split
  · exact ⟨_, _, rfl⟩
  · exact ⟨_, _, rfl⟩

theorem Reader.lossyTextOrRest_suffix {s rest : List UInt8} {text : String}
    (h : lossyTextOrRest s = .ok text rest) : rest <:+ s := by
  obtain ⟨raw, rfl | ⟨-, rfl⟩, -⟩ := RawText.lossyTextOrRest_eq_ok_iff.1 h
  · exact List.suffix_append raw.terminated rest
  · exact List.nil_suffix

theorem Reader.lossyTextOrRest_length_lt {s rest : List UInt8} {text : String} (hs : s ≠ [])
    (h : lossyTextOrRest s = .ok text rest) : rest.length < s.length := by
  obtain ⟨raw, -, rfl | ⟨-, rfl⟩, -⟩ := Reader.lossyTextOrRest_eq_ok_iff.1 h
  · rw [List.length_append, List.length_cons]
    omega
  · exact List.length_pos_iff.2 hs

/-- A text that ends in NUL or, if there is none, with the buffer is always there. -/
theorem RawText.exists_of_lossyTextOrRest (s : List UInt8) : ∃ raw : RawText,
    (∃ rest, s = raw.terminated ++ rest ∧ lossyTextOrRest s = .ok raw.text rest) ∨
      s = raw.bytes ∧ lossyTextOrRest s = .ok raw.text [] := by
  obtain ⟨text, rest, h⟩ := exists_lossyTextOrRest s
  obtain ⟨raw, hs | ⟨hs, rfl⟩, rfl⟩ := RawText.lossyTextOrRest_eq_ok_iff.1 h
  · exact ⟨raw, .inl ⟨rest, hs, h⟩⟩
  · exact ⟨raw, .inr ⟨hs, h⟩⟩

/-- The outcome of a read, a failure included, with the bytes that the read has left. -/
def Reader.attempt (r : Reader α) : Reader (Except CodecError α) := fun s =>
  match r s with
  | .ok a rest => .ok (.ok a) rest
  | .error e rest => .ok (.error e) rest

/-- A way to go from one read to the next, to the end or to a failure. -/
inductive Decoder (α : Type) where
  | done (a : α)
  | fail (e : CodecError)
  /-- Goes on by the bytes that remain. -/
  | look (k : List UInt8 → Decoder α)
  /-- Reads an item and goes on by the outcome. -/
  | read (i : Item) (k : Except CodecError i.Value → Decoder α)
  /-- Reads a text whose NUL may be missing. -/
  | readTextOrRest (k : String → Decoder α)

namespace Decoder

variable {d : Decoder α} {i : Item} {s t rest : List UInt8} {a : α} {e : CodecError}

def run : Decoder α → Reader α
  | done a => pure a
  | fail e => throw e
  | look k => get >>= fun s => (k s).run
  | read i k => i.read.attempt >>= fun outcome => (k outcome).run
  | readTextOrRest k => lossyTextOrRest >>= fun text => (k text).run

/-- Reads an item, and fails if this fails. -/
def take (i : Item) (k : i.Value → Decoder α) : Decoder α :=
  read i fun
    | .ok v => k v
    | .error e => fail e

theorem run_look (k : List UInt8 → Decoder α) : (look k).run s = (k s).run s := rfl

theorem run_read_of_ok {v : i.Value} (h : i.read s = .ok v t)
    (k : Except CodecError i.Value → Decoder α) : (read i k).run s = (k (.ok v)).run t := by
  have hattempt : i.read.attempt s = .ok (.ok v) t := by rw [attempt, h]
  rw [run, bind_apply_of_ok hattempt]

theorem run_read_of_error (h : i.read s = .error e t)
    (k : Except CodecError i.Value → Decoder α) : (read i k).run s = (k (.error e)).run t := by
  have hattempt : i.read.attempt s = .ok (.error e) t := by rw [attempt, h]
  rw [run, bind_apply_of_ok hattempt]

theorem run_take (k : i.Value → Decoder α) : (take i k).run = i.read >>= fun v => (k v).run := by
  funext s
  cases h : i.read s with
  | ok v t => rw [take, run_read_of_ok h, bind_apply_of_ok h]
  | error e t =>
    rw [take, run_read_of_error h, bind_apply_of_error h]
    rfl

/-! ## Passes that take an item -/

theorem run_suffix (h : d.run s = .ok a rest) : rest <:+ s := by
  induction d generalizing s with
  | done b =>
    cases h
    exact List.suffix_rfl
  | fail e => cases h
  | look k ih => exact ih s h
  | read i k ih =>
    cases hread : i.read s with
    | ok v t =>
      rw [run_read_of_ok hread] at h
      exact (ih _ h).trans (Item.read_suffix hread)
    | error e t =>
      rw [run_read_of_error hread] at h
      obtain ⟨rfl, -⟩ := Item.read_eq_error_iff.1 hread
      exact ih _ h
  | readTextOrRest k ih =>
    obtain ⟨text, t, htext, h⟩ := bind_eq_ok_iff.1 h
    exact (ih text h).trans (lossyTextOrRest_suffix htext)

/-- On its way through `s`, the decoder takes bytes for an item. -/
inductive TakesItem : Decoder α → List UInt8 → Prop
  | item {i : Item} {k : Except CodecError i.Value → Decoder α} {s t : List UInt8} {v : i.Value}
    (h : i.read s = .ok v t) (hi : i.TakesBytes) : TakesItem (read i k) s
  | text {k : String → Decoder α} {s : List UInt8} (h : s ≠ []) : TakesItem (readTextOrRest k) s
  | afterLook {k : List UInt8 → Decoder α} {s : List UInt8} (hk : TakesItem (k s) s) :
    TakesItem (look k) s
  | afterItem {i : Item} {k : Except CodecError i.Value → Decoder α} {s t : List UInt8}
    {v : i.Value} (h : i.read s = .ok v t) (hk : TakesItem (k (.ok v)) t) : TakesItem (read i k) s
  | afterFailure {i : Item} {k : Except CodecError i.Value → Decoder α} {s t : List UInt8}
    {e : CodecError} (h : i.read s = .error e t) (hk : TakesItem (k (.error e)) t) :
    TakesItem (read i k) s
  | afterText {k : String → Decoder α} {s t : List UInt8} {text : String}
    (h : lossyTextOrRest s = .ok text t) (hk : TakesItem (k text) t) :
    TakesItem (readTextOrRest k) s

theorem takesItem_take {k : i.Value → Decoder α} (hi : i.TakesBytes)
    (h : (take i k).run s = .ok a rest) : (take i k).TakesItem s := by
  rw [run_take] at h
  obtain ⟨v, t, hread, -⟩ := bind_eq_ok_iff.1 h
  exact .item hread hi

theorem length_lt_of_takesItem (hd : d.TakesItem s) (h : d.run s = .ok a rest) :
    rest.length < s.length := by
  -- Along the way to the item: nothing before it gives bytes back, and nothing behind it does.
  induction hd with
  | item hread hi =>
    rw [run_read_of_ok hread] at h
    exact (run_suffix h).length_le.trans_lt (hi.length_lt hread)
  | text hs =>
    obtain ⟨text, t, htext, h⟩ := bind_eq_ok_iff.1 h
    exact (run_suffix h).length_le.trans_lt (lossyTextOrRest_length_lt hs htext)
  | afterLook hk ih => exact ih h
  | afterItem hread hk ih =>
    rw [run_read_of_ok hread] at h
    exact (ih h).trans_le (Item.read_suffix hread).length_le
  | afterFailure hread hk ih =>
    rw [run_read_of_error hread] at h
    obtain ⟨rfl, -⟩ := Item.read_eq_error_iff.1 hread
    exact ih h
  | afterText htext hk ih =>
    rw [run, bind_apply_of_ok htext] at h
    exact (ih h).trans_le (lossyTextOrRest_suffix htext).length_le

end Decoder

/-! ## Loops -/

/-- A loop with the variables `σ`. Each pass gives their values for the next pass or the value of
the loop. -/
structure DecoderLoop (σ α : Type) where
  pass : σ → Decoder (σ ⊕ α)
  takesItem : ∀ {x y : σ} {s t : List UInt8}, (pass x).run s = .ok (.inl y) t →
    (pass x).TakesItem s

namespace DecoderLoop

variable {l : DecoderLoop σ α} {x y : σ} {s t : List UInt8}
  {result other : EStateM.Result CodecError (List UInt8) α}

/-- From the values `x` and the bytes `s`, the loop makes `n` passes, and the one behind them ends
it. -/
inductive Run (l : DecoderLoop σ α) :
    Nat → σ → List UInt8 → EStateM.Result CodecError (List UInt8) α → Prop
  | leave {x : σ} {s t : List UInt8} {a : α} (h : (l.pass x).run s = .ok (.inr a) t) :
    Run l 0 x s (.ok a t)
  | fail {x : σ} {s t : List UInt8} {e : CodecError} (h : (l.pass x).run s = .error e t) :
    Run l 0 x s (.error e t)
  | next {x y : σ} {s t : List UInt8} {n : Nat} {result : EStateM.Result CodecError (List UInt8) α}
    (h : (l.pass x).run s = .ok (.inl y) t) (hrest : Run l n y t result) : Run l (n + 1) x s result

theorem length_lt_of_pass (h : (l.pass x).run s = .ok (.inl y) t) : t.length < s.length :=
  Decoder.length_lt_of_takesItem (l.takesItem h) h

theorem Run.le_length {n : Nat} (h : l.Run n x s result) : n ≤ s.length := by
  induction h with
  | leave => exact Nat.zero_le _
  | fail => exact Nat.zero_le _
  | next h hrest ih =>
    have hlt := length_lt_of_pass h
    omega

theorem Run.unique {n m : Nat} (h : l.Run n x s result) (hother : l.Run m x s other) :
    m = n ∧ other = result := by
  induction h generalizing m with
  | leave h =>
    cases hother with
    | leave h' =>
      rw [h] at h'
      cases h'
      exact ⟨rfl, rfl⟩
    | fail h' => simp [h] at h'
    | next h' => simp [h] at h'
  | fail h =>
    cases hother with
    | leave h' => simp [h] at h'
    | fail h' =>
      rw [h] at h'
      cases h'
      exact ⟨rfl, rfl⟩
    | next h' => simp [h] at h'
  | next h hrest ih =>
    cases hother with
    | leave h' => simp [h] at h'
    | fail h' => simp [h] at h'
    | next h' hrest' =>
      rw [h] at h'
      cases h'
      obtain ⟨rfl, rfl⟩ := ih hrest'
      exact ⟨rfl, rfl⟩

theorem exists_run (l : DecoderLoop σ α) (x : σ) (s : List UInt8) :
    ∃ n result, l.Run n x s result := by
  -- On the bytes that remain, as the variables of a loop need not become smaller.
  induction hlength : s.length using Nat.strong_induction_on generalizing x s with
  | h length ih =>
    cases hpass : (l.pass x).run s with
    | error e t => exact ⟨0, _, .fail hpass⟩
    | ok outcome t =>
      cases outcome with
      | inr a => exact ⟨0, _, .leave hpass⟩
      | inl y =>
        have hlt := length_lt_of_pass hpass
        obtain ⟨n, result, hrun⟩ := ih t.length (hlength ▸ hlt) y t rfl
        exact ⟨n + 1, result, .next hpass hrun⟩

end DecoderLoop

/-! ## The loops over players and rules -/

theorem Reader.map_apply_congr {β : Type} {q r : Reader α} {s : List UInt8} (h : q s = r s)
    (f : α → β) : (f <$> q) s = (f <$> r) s := by
  simp only [Functor.map, EStateM.map, h]

/-- What is read before the others can be put behind those in front of them. -/
theorem Reader.map_append_map_cons (front : List α) (a : α) (r : Reader (List α)) :
    (front ++ ·) <$> (a :: ·) <$> r = (front ++ [a] ++ ·) <$> r := by
  simp only [Functor.map_map, List.append_assoc, List.singleton_append]

namespace Player

/-- The loop over the players that are read while bytes remain. -/
def loop : DecoderLoop (List Player) (List Player) where
  pass players := .look fun s =>
    if s = [] then .done (.inr players)
    else
      .take .u8 fun index =>
      .take .lossyText fun name =>
      .take .i32 fun score =>
      .take .single fun time =>
      .done (.inl (players ++ [{ index, name, score, time }]))
  takesItem := by
    intro players others s t h
    rw [Decoder.run_look] at h
    refine .afterLook ?_
    split at h
    · cases h
    · next hs =>
      rw [if_neg hs]
      exact Decoder.takesItem_take (Item.takesBytes_iff.2 (by simp)) h

theorem run_pass_nil (players : List Player) :
    (loop.pass players).run [] = .ok (.inr players) [] := rfl

theorem run_pass_cons (players : List Player) (b : UInt8) (s : List UInt8) :
    (loop.pass players).run (b :: s) =
      ((fun p => .inl (players ++ [p])) <$> read : Reader (List Player ⊕ List Player))
        (b :: s) := by
  rw [loop, Decoder.run_look, if_neg (List.cons_ne_nil b s)]
  simp only [Decoder.run_take, Decoder.run, Item.read, read, map_bind, map_pure, bind_map_left]

theorem map_readMany_nil (m : Nat) (players : List Player) :
    ((players ++ ·) <$> readMany m) [] = .ok players [] := by
  have hread : readMany m [] = .ok [] [] := by cases m <;> rfl
  rw [map_eq_ok hread, List.append_nil]

/-- The loop over players needs no bound but the bytes that there are. -/
theorem loop_run {m : Nat} {s : List UInt8} (hm : s.length ≤ m) (players : List Player) :
    ∃ n, loop.Run n players s (((players ++ ·) <$> readMany m) s) := by
  induction m generalizing s players with
  | zero =>
    obtain rfl := List.eq_nil_of_length_eq_zero (Nat.le_zero.1 hm)
    rw [map_readMany_nil]
    exact ⟨0, .leave (run_pass_nil players)⟩
  | succ m ih =>
    cases s with
    | nil =>
      rw [map_readMany_nil]
      exact ⟨0, .leave (run_pass_nil players)⟩
    | cons b s =>
      have hpass := run_pass_cons players b s
      have hmany : ((players ++ ·) <$> readMany (m + 1)) (b :: s) =
          (read >>= fun p => (players ++ ·) <$> (p :: ·) <$> readMany m) (b :: s) := by
        rw [map_apply_congr (readMany_succ_cons m b s), map_bind]
      rw [hmany]
      cases hread : read (b :: s) with
      | error e t =>
        rw [bind_apply_of_error hread]
        exact ⟨0, .fail (hpass.trans (map_eq_error_iff.2 hread))⟩
      | ok p t =>
        have hnext := hpass.trans (map_eq_ok hread _)
        have hlt := (DecoderLoop.length_lt_of_pass hnext).trans_le hm
        obtain ⟨n, hrun⟩ := ih (Nat.lt_succ_iff.1 hlt) (players ++ [p])
        rw [bind_apply_of_ok hread, map_append_map_cons]
        exact ⟨n + 1, .next hnext hrun⟩

end Player

namespace Rules

/-- The loop over the assignments that are read for an announced number. -/
def loop : DecoderLoop (Nat × List (String × String)) (List (String × String)) where
  pass
    | (0, entries) => .done (.inr entries)
    | (n + 1, entries) =>
      .take .lossyText fun name =>
      if name = "" then .done (.inr entries)
      else .readTextOrRest fun value => .done (.inl (n, entries ++ [(name, value)]))
  takesItem := by
    intro x y s t h
    match x with
    | (0, entries) => cases h
    | (n + 1, entries) => exact Decoder.takesItem_take (Item.takesBytes_iff.2 (by simp)) h

theorem run_pass_succ (n : Nat) (entries : List (String × String)) :
    (loop.pass (n + 1, entries)).run = lossyText >>= fun name =>
      if name = "" then pure (.inr entries)
      else lossyTextOrRest >>= fun value => pure (.inl (n, entries ++ [(name, value)])) := by
  rw [loop, Decoder.run_take]
  congr
  funext name
  split <;> rfl

theorem loop_run (count : Nat) (s : List UInt8) (entries : List (String × String)) :
    ∃ n, loop.Run n (count, entries) s (((entries ++ ·) <$> readMany count) s) := by
  induction count generalizing s entries with
  | zero =>
    have hread : readMany 0 s = .ok [] s := rfl
    rw [map_eq_ok hread, List.append_nil]
    exact ⟨0, .leave rfl⟩
  | succ count ih =>
    rw [readMany, map_bind]
    have hpass := congrFun (run_pass_succ count entries) s
    cases hname : lossyText s with
    | error e t =>
      rw [bind_apply_of_error hname] at hpass ⊢
      exact ⟨0, .fail hpass⟩
    | ok name t =>
      rw [bind_apply_of_ok hname] at hpass ⊢
      -- An empty name ends the list, and no value is read behind it.
      split at hpass
      · next hempty =>
        rw [if_pos hempty, map_pure, List.append_nil]
        exact ⟨0, .leave hpass⟩
      · next hne =>
        obtain ⟨value, u, hvalue⟩ := exists_lossyTextOrRest t
        rw [if_neg hne, map_bind]
        rw [bind_apply_of_ok hvalue] at hpass ⊢
        obtain ⟨n, hrun⟩ := ih u (entries ++ [(name, value)])
        rw [← map_append_map_cons] at hrun
        exact ⟨n + 1, .next hpass hrun⟩

end Rules

/-- A read takes the bytes of its item, or it fails and takes nothing. Only the text at the end of
a buffer needs no NUL, and it is always read. A loop that reads an item on each pass thus ends, and
it makes no more passes than there are bytes. The loops over players and over rules are of this
kind. -/
theorem reads_exact_and_loops_end :
    (∀ (i : Item) (s rest : List UInt8) (v : i.Value),
      i.read s = .ok v rest ↔ ∃ taken, s = taken ++ rest ∧ i.Spells taken v) ∧
    (∀ (i : Item) (s rest : List UInt8) (e : CodecError),
      i.read s = .error e rest ↔ rest = s ∧ i.Refuses s e) ∧
    (lossyTextOrRest = tryCatch lossyText fun _ => Text.Utf8.decodeLossy <$> Reader.rest) ∧
    (∀ s : List UInt8, ∃ raw : RawText,
      (∃ rest, s = raw.terminated ++ rest ∧ lossyTextOrRest s = .ok raw.text rest) ∨
        s = raw.bytes ∧ lossyTextOrRest s = .ok raw.text []) ∧
    (∀ {σ α : Type} (l : DecoderLoop σ α) (x : σ) (s : List UInt8),
      ∃ n ≤ s.length, ∃ result, ∀ m other, l.Run m x s other ↔ m = n ∧ other = result) ∧
    (∀ s, ∃ n ≤ s.length, Player.loop.Run n [] s (Player.readMany s.length s)) ∧
    ∀ count s, ∃ n ≤ s.length, Rules.loop.Run n (count, []) s (Rules.readMany count s) := by
  refine ⟨fun i s rest v => Item.read_eq_ok_iff, fun i s rest e => Item.read_eq_error_iff,
    lossyTextOrRest_eq_tryCatch, RawText.exists_of_lossyTextOrRest, ?_, ?_, ?_⟩
  · intro σ α l x s
    obtain ⟨n, result, hrun⟩ := l.exists_run x s
    refine ⟨n, hrun.le_length, result, fun m other => ⟨hrun.unique, ?_⟩⟩
    rintro ⟨rfl, rfl⟩
    exact hrun
  · intro s
    obtain ⟨n, hrun⟩ := Player.loop_run (Nat.le_refl s.length) []
    simp only [List.nil_append, id_map'] at hrun
    exact ⟨n, hrun.le_length, hrun⟩
  · intro count s
    obtain ⟨n, hrun⟩ := Rules.loop_run count s []
    simp only [List.nil_append, id_map'] at hrun
    exact ⟨n, hrun.le_length, hrun⟩

end GameQuery
