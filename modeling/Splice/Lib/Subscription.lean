import Splice.Lib.StdSet
import Mathlib.Data.List.Perm.Basic
import Mathlib.Logic.Function.Basic

/-!
# Splice.Lib.Subscription

A board on which messages are published to those who have joined it.  `publish` makes a note
for each subscriber, and the notes are taken off one by one, later and in any order.

`heard` says what a subscriber is meant to get: what was published while it was in.
`sound_*` are the preservation lemmas of the invariant that it gets each of these once, and
`inTurn_take` the one for their order, which holds as long as each note is taken off in turn.
-/

namespace Subscription

/-- What happens on a board. -/
inductive Event (ι μ : Type) where
  | join (s : ι)
  | leave (s : ι)
  | publish (msg : μ)
  deriving DecidableEq, Repr

variable {ι μ : Type} [LinearOrder ι]

/-! ## What is meant to be heard -/

/-- Whether a subscriber is in, and what it has heard, after one more event. -/
def hear (s : ι) : Bool × List μ → Event ι μ → Bool × List μ
  | (subscribed, msgs), .join t => (subscribed || t = s, msgs)
  | (subscribed, msgs), .leave t => (subscribed && t ≠ s, msgs)
  | (subscribed, msgs), .publish msg => (subscribed, if subscribed then msgs ++ [msg] else msgs)

/-- The subscriber is in. -/
def Subscribed (s : ι) (log : List (Event ι μ)) : Prop := (log.foldl (hear s) (false, [])).1

instance (s : ι) (log : List (Event ι μ)) : Decidable (Subscribed s log) :=
  inferInstanceAs (Decidable (_ = true))

/-- What was published while it was in. -/
def heard (s : ι) (log : List (Event ι μ)) : List μ := (log.foldl (hear s) (false, [])).2

variable {s t : ι} {msg : μ} {log : List (Event ι μ)}

@[simp] theorem not_subscribed_nil : ¬ Subscribed s ([] : List (Event ι μ)) := Bool.false_ne_true

@[simp] theorem heard_nil : heard s ([] : List (Event ι μ)) = [] := rfl

@[simp] theorem subscribed_join : Subscribed s (log ++ [.join t]) ↔ t = s ∨ Subscribed s log := by
  simp [Subscribed, hear, or_comm]

@[simp] theorem subscribed_leave :
    Subscribed s (log ++ [.leave t]) ↔ t ≠ s ∧ Subscribed s log := by
  simp [Subscribed, hear, and_comm]

@[simp] theorem subscribed_publish :
    Subscribed s (log ++ [.publish msg]) ↔ Subscribed s log := by
  simp [Subscribed, hear]

@[simp] theorem heard_join : heard s (log ++ [.join t]) = heard s log := by
  simp [heard, hear]

@[simp] theorem heard_leave : heard s (log ++ [.leave t]) = heard s log := by
  simp [heard, hear]

@[simp] theorem heard_publish :
    heard s (log ++ [.publish msg]) =
      heard s log ++ if Subscribed s log then [msg] else [] := by
  by_cases h : Subscribed s log
  · have hin : (log.foldl (hear s) (false, [])).1 = true := h
    simp [h, heard, hear, hin]
  · have hout : (log.foldl (hear s) (false, [])).1 = false := Bool.eq_false_of_not_eq_true h
    simp [h, heard, hear, hout]

/-! ## The board -/

/-- A board: who is in, the notes on it, oldest first, what has been taken off for each
subscriber, and the log. -/
structure Board (ι μ : Type) [LinearOrder ι] where
  members : StdSet ι
  posted : List (ι × μ)
  taken : ι → List μ
  log : List (Event ι μ)

namespace Board

/-- A board without subscribers. -/
def empty : Board ι μ := ⟨.empty, [], fun _ => [], []⟩

/-- A subscriber comes. -/
def join (b : Board ι μ) (s : ι) : Board ι μ :=
  { b with members := b.members.insert s, log := b.log ++ [.join s] }

/-- A subscriber goes.  Its notes stay. -/
def leave (b : Board ι μ) (s : ι) : Board ι μ :=
  { b with members := b.members.erase s, log := b.log ++ [.leave s] }

/-- A note for each subscriber. -/
def publish (b : Board ι μ) (msg : μ) : Board ι μ :=
  { b with
    posted := b.posted ++ b.members.toList.map (·, msg)
    log := b.log ++ [.publish msg] }

/-- Several messages, one after the other. -/
def publishAll (b : Board ι μ) (msgs : List μ) : Board ι μ := msgs.foldl publish b

/-- Note number `k` is taken off. -/
def take (b : Board ι μ) (k : Nat) : Option (Board ι μ) :=
  b.posted[k]?.map fun (s, msg) =>
    { b with
      posted := b.posted.eraseIdx k
      taken := Function.update b.taken s (b.taken s ++ [msg]) }

/-- The notes for a subscriber. -/
def notes (s : ι) (posted : List (ι × μ)) : List μ :=
  (posted.filter fun note => note.1 = s).map Prod.snd

/-- No note before number `k` is for the same subscriber. -/
def Turn (b : Board ι μ) (k : Nat) : Prop :=
  ∀ note ∈ b.posted[k]?, ∀ earlier ∈ b.posted.take k, earlier.1 ≠ note.1

instance (b : Board ι μ) (k : Nat) : Decidable (b.Turn k) :=
  match h : b.posted[k]? with
  | none => isTrue (by simp [Turn, h])
  | some note => decidable_of_iff (∀ earlier ∈ b.posted.take k, earlier.1 ≠ note.1)
      (by simp [Turn, h])

/-- Who is in is who joined and has not left, and what has been taken off for a subscriber and
what is left for it are what it is meant to hear. -/
structure Sound (b : Board ι μ) : Prop where
  mem_iff : ∀ s, s ∈ b.members ↔ Subscribed s b.log
  perm : ∀ s, (b.taken s ++ notes s b.posted).Perm (heard s b.log)

/-- The same, in order. -/
def InTurn (b : Board ι μ) : Prop := ∀ s, b.taken s ++ notes s b.posted = heard s b.log

variable {b b' : Board ι μ} {k : Nat}

/-! ## What the operations do -/

@[simp] theorem notes_append (s : ι) (posted more : List (ι × μ)) :
    notes s (posted ++ more) = notes s posted ++ notes s more := by
  simp [notes]

/-- A member gets one note, and nobody else any. -/
theorem notes_publish (s : ι) (members : StdSet ι) (msg : μ) :
    notes s (members.toList.map (·, msg)) = if s ∈ members then [msg] else [] := by
  rw [notes, List.filter_map, List.map_map]
  have hself : members.toList.filter ((fun note : ι × μ => decide (note.1 = s)) ∘ (·, msg)) =
      members.toList.filter (· == s) := by
    exact List.filter_congr fun t _ => rfl
  rw [hself, List.filter_beq]
  split
  · next hmem =>
      rw [List.count_eq_one_of_mem members.nodup hmem]
      rfl
  · next hmem =>
      rw [List.count_eq_zero_of_not_mem hmem]
      rfl

/-- Publishing makes notes for members, and changes nothing else. -/
theorem publishAll_spec (b : Board ι μ) (msgs : List μ) :
    (b.publishAll msgs).members = b.members ∧ (b.publishAll msgs).taken = b.taken ∧
      ∃ more, (b.publishAll msgs).posted = b.posted ++ more ∧
        ∀ note ∈ more, note.1 ∈ b.members := by
  induction msgs generalizing b with
  | nil => exact ⟨rfl, rfl, [], (List.append_nil _).symm, nofun⟩
  | cons msg msgs ih =>
      obtain ⟨hmembers, htaken, more, hposted, hmore⟩ := ih (b.publish msg)
      refine ⟨hmembers, htaken, b.members.toList.map (·, msg) ++ more, ?_, ?_⟩
      · rw [← List.append_assoc]
        exact hposted
      · intro note hnote
        rcases List.mem_append.mp hnote with hnote | hnote
        · obtain ⟨s, hs, rfl⟩ := List.mem_map.mp hnote
          exact hs
        · exact hmore note hnote

/-- What a step that takes a note off does. -/
theorem take_cases (h : b.take k = some b') :
    ∃ (before after : List (ι × μ)) (s : ι) (msg : μ),
      b.posted = before ++ (s, msg) :: after ∧ before.length = k ∧
      b' = { b with
        posted := before ++ after
        taken := Function.update b.taken s (b.taken s ++ [msg]) } := by
  obtain ⟨⟨s, msg⟩, hget, rfl⟩ := Option.map_eq_some_iff.mp h
  obtain ⟨hlt, hget⟩ := List.getElem?_eq_some_iff.mp hget
  have hsplit : b.posted = b.posted.take k ++ (s, msg) :: b.posted.drop (k + 1) := by
    rw [← hget, List.getElem_cons_drop, List.take_append_drop]
  have hlen : (b.posted.take k).length = k := by
    rw [List.length_take]
    omega
  exact ⟨_, _, s, msg, hsplit, hlen, by rw [List.eraseIdx_eq_take_drop_succ]⟩

theorem notes_cons_self (s : ι) (msg : μ) (posted : List (ι × μ)) :
    notes s ((s, msg) :: posted) = msg :: notes s posted := by
  simp [notes]

theorem notes_cons_of_ne {s t : ι} (h : t ≠ s) (msg : μ) (posted : List (ι × μ)) :
    notes s ((t, msg) :: posted) = notes s posted := by
  simp [notes, h]

/-! ## The invariants -/

theorem sound_empty : (empty : Board ι μ).Sound :=
  ⟨fun _ => iff_of_false StdSet.not_mem_empty not_subscribed_nil, fun _ => .rfl⟩

theorem sound_join (h : b.Sound) (s : ι) : (b.join s).Sound where
  mem_iff t := by simp [join, h.mem_iff, eq_comm]
  perm t := by simpa [join] using h.perm t

theorem sound_leave (h : b.Sound) (s : ι) : (b.leave s).Sound where
  mem_iff t := by simp [leave, h.mem_iff, eq_comm]
  perm t := by simpa [leave] using h.perm t

/-- Both sides get the message if the subscriber is in. -/
theorem notes_posted_publish (h : b.Sound) (msg : μ) (s : ι) :
    notes s (b.publish msg).posted =
      notes s b.posted ++ if Subscribed s b.log then [msg] else [] := by
  simp only [publish, notes_append, notes_publish, h.mem_iff]

/-- Publishing keeps a board sound. -/
theorem sound_publish (h : b.Sound) (msg : μ) : (b.publish msg).Sound where
  mem_iff _ := by simp [publish, h.mem_iff]
  perm s := by
    rw [notes_posted_publish h]
    simp only [publish, heard_publish, ← List.append_assoc]
    exact (h.perm s).append_right _

/-- Publishing several messages keeps a board sound. -/
theorem sound_publishAll (h : b.Sound) (msgs : List μ) : (b.publishAll msgs).Sound := by
  induction msgs generalizing b with
  | nil => exact h
  | cons msg msgs ih => exact ih (sound_publish h msg)

/-- Taking a note keeps a board sound. -/
theorem sound_take (h : b.Sound) (htake : b.take k = some b') : b'.Sound := by
  obtain ⟨before, after, s, msg, hposted, -, rfl⟩ := take_cases htake
  refine ⟨h.mem_iff, fun t => ?_⟩
  have hperm := h.perm t
  rw [hposted] at hperm
  by_cases hst : s = t
  · subst hst
    refine List.Perm.trans ?_ hperm
    simp only [Function.update_self, notes_append, notes_cons_self, List.append_assoc,
      List.singleton_append]
    exact (List.perm_middle.symm).append_left _
  · simpa [Function.update_of_ne (Ne.symm hst), notes_cons_of_ne hst] using hperm

theorem inTurn_empty : (empty : Board ι μ).InTurn := fun _ => rfl

theorem inTurn_join (h : b.InTurn) (s : ι) : (b.join s).InTurn := by
  intro t
  simpa [join] using h t

theorem inTurn_leave (h : b.InTurn) (s : ι) : (b.leave s).InTurn := by
  intro t
  simpa [leave] using h t

/-- Publishing takes nobody's turn. -/
theorem inTurn_publish (hsound : b.Sound) (h : b.InTurn) (msg : μ) : (b.publish msg).InTurn := by
  intro s
  rw [notes_posted_publish hsound]
  simp only [publish, heard_publish, ← List.append_assoc, h s]

/-- Publishing several messages takes nobody's turn. -/
theorem inTurn_publishAll (hsound : b.Sound) (h : b.InTurn) (msgs : List μ) :
    (b.publishAll msgs).InTurn := by
  induction msgs generalizing b with
  | nil => exact h
  | cons msg msgs ih => exact ih (sound_publish hsound msg) (inTurn_publish hsound h msg)

/-- **A note taken off in turn keeps the order.** -/
theorem inTurn_take (h : b.InTurn) (hturn : b.Turn k) (htake : b.take k = some b') :
    b'.InTurn := by
  obtain ⟨before, after, s, msg, hposted, hlen, rfl⟩ := take_cases htake
  have hbefore : notes s before = [] := by
    have hne : ∀ earlier ∈ before, earlier.1 ≠ s := by
      intro earlier hmem
      refine hturn (s, msg) ?_ earlier ?_
      · simp [hposted, ← hlen]
      · simpa [hposted, ← hlen] using hmem
    simp only [notes, List.map_eq_nil_iff, List.filter_eq_nil_iff, decide_eq_true_eq]
    exact hne
  intro t
  have ht := h t
  rw [hposted] at ht
  by_cases hst : s = t
  · subst hst
    simp only [notes_append, hbefore, notes_cons_self, List.nil_append] at ht
    simpa [hbefore] using ht
  · simpa [Function.update_of_ne (Ne.symm hst), notes_cons_of_ne hst] using ht

end Board

end Subscription
