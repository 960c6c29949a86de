import Mathlib.Data.List.DropRight
import AdbShare.Transition

/-! The logcat stream of a device and a reader that polls it. A stream is numbered by the order
in which the streams of the device were started; `start_logcat` is a stop and an insert, and a
poll looks the buffer up before it reads it. Sequence numbers are `u64` in the source. -/
namespace AdbShare.Logcat

open Function List Option

open Transition (exec Meets meets_cons)

def LOGCAT_CAP : ℕ := 10000

abbrev Text := List Char

structure LogcatBuffer where
  lines : List (ℕ × Text) := []
  next : ℕ := 0

/-- A line that was read: the end of line is cut off, an empty line is dropped, and the oldest
lines make room for the newest. -/
def LogcatBuffer.push (buf : LogcatBuffer) (raw : Text) : LogcatBuffer :=
  let text := raw.rdropWhile fun c => c == '\n' || c == '\r'
  if text = [] then buf
  else
    let lines := buf.lines++[(buf.next,text)]
    ⟨lines.drop (lines.length-LOGCAT_CAP),buf.next+1⟩

/-- `logcat_lines_json` on a buffer: `next` and the lines. -/
def logcatLines (buf : LogcatBuffer) (since max : ℕ) : ℕ × List (ℕ × Text) :=
  (buf.next,(buf.lines.filter fun line => decide (since ≤ line.1)).take (Nat.max max 1))

structure Line where
  stream : ℕ
  seq : ℕ
  text : Text
  deriving DecidableEq

/-- The daemon's streams and one reader. `poll` is a call that has looked up its buffer; `last`
is the stream the cursor comes from, `offered` every line that stood in a buffer as the reader
read it. -/
structure State where
  logcat : Option ℕ
  streams : ℕ
  buffers : ℕ → LogcatBuffer
  cursor : ℕ
  poll : Option (ℕ × ℕ)
  last : Option ℕ
  received : List Line
  offered : List Line

def init : State := ⟨none,0,fun _ => {},0,none,none,[],[]⟩

inductive Act
  | stop
  | insert
  | line (stream : ℕ) (raw : Text)
  | get (max : ℕ)
  | read
  deriving DecidableEq

def tag (stream : ℕ) (line : ℕ × Text) : Line := ⟨stream,line.1,line.2⟩

theorem tag_injective (stream : ℕ) : Function.Injective (tag stream) := by
  rintro ⟨_,_⟩ ⟨_,_⟩ ⟨⟩
  rfl

/-- A stream that is stopped may still push what it has read. Without a stream a poll returns the
cursor it was given. -/
def step (s : State) : Act → Option State
  | .stop => some { s with logcat := none }
  | .insert => some { s with
      logcat := some s.streams
      streams := s.streams+1
      buffers := update s.buffers s.streams {} }
  | .line i raw =>
    if i < s.streams then some { s with buffers := update s.buffers i ((s.buffers i).push raw) } else none
  | .get max =>
    match s.poll,s.logcat with
    | none, some i => some { s with poll := some (i,max) }
    | none, none => some s
    | some _, _ => none
  | .read =>
    match s.poll with
    | none => none
    | some (i,max) =>
      let (next,lines) := logcatLines (s.buffers i) s.cursor max
      some { s with
        cursor := next
        poll := none
        last := some i
        received := s.received++lines.map (tag i)
        offered := s.offered++(s.buffers i).lines.map (tag i) }

/-- By stream, then by number. -/
def Line.Before (l l' : Line) : Prop := l.stream < l'.stream ∨ l.stream = l'.stream ∧ l.seq < l'.seq

/-- Lines come in order and at most once, and every line that a poll could have returned has
been received. -/
def Delivered (s : State) : Prop := s.received.Pairwise Line.Before ∧ ∀ l ∈ s.offered, l ∈ s.received

/-- The poll returns all lines from the cursor on, and the cursor is one of the stream that is
read or skips none of its lines. -/
def Whole (s : State) : Act → Prop
  | .read => ∀ i max, s.poll = some (i,max) →
    ((s.buffers i).lines.filter fun line => decide (s.cursor ≤ line.1)).length ≤ Nat.max max 1 ∧
      (s.last = some i ∨ ∀ line ∈ (s.buffers i).lines, s.cursor ≤ line.1)
  | _ => True

/-- The numbers of a buffer grow and stay below the next one. -/
structure LogcatBuffer.Numbered (buf : LogcatBuffer) : Prop where
  sorted : buf.lines.Pairwise fun a b => a.1 < b.1
  below : ∀ line ∈ buf.lines, line.1 < buf.next

theorem numbered_empty : LogcatBuffer.Numbered {} := ⟨.nil,nofun⟩

section

variable {buf : LogcatBuffer} {raw : Text}

theorem LogcatBuffer.push_cases (buf : LogcatBuffer) (raw : Text) : buf.push raw = buf ∨
    ∃ text n, buf.push raw = ⟨(buf.lines++[(buf.next,text)]).drop n,buf.next+1⟩ := by
  rw [push]
  split_ifs
  · exact .inl rfl
  · exact .inr ⟨_,_,rfl⟩

theorem LogcatBuffer.Numbered.push (h : buf.Numbered) : (buf.push raw).Numbered := by
  obtain heq | ⟨text,n,heq⟩ := buf.push_cases raw
  · rw [heq]
    exact h
  have hsorted : (buf.lines++[(buf.next,text)]).Pairwise fun a b => a.1 < b.1 := by
    refine pairwise_append.mpr ⟨h.sorted,pairwise_singleton _ _,?_⟩
    intro a ha b hb
    rw [mem_singleton.mp hb]
    exact h.below a ha
  rw [heq]
  refine ⟨hsorted.sublist (drop_sublist _ _),?_⟩
  intro line hline
  obtain hold | hnew := mem_append.mp (mem_of_mem_drop hline)
  · exact (h.below line hold).trans (Nat.lt_succ_self _)
  · rw [mem_singleton.mp hnew]
    exact Nat.lt_succ_self _

theorem LogcatBuffer.next_le_push : buf.next ≤ (buf.push raw).next := by
  obtain heq | ⟨text,n,heq⟩ := buf.push_cases raw <;> rw [heq]
  exact Nat.le_succ _

/-- Only the line that comes in is new. -/
theorem LogcatBuffer.mem_push {line : ℕ × Text} (h : line ∈ (buf.push raw).lines) : line ∈ buf.lines ∨ line.1 = buf.next := by
  obtain heq | ⟨text,n,heq⟩ := buf.push_cases raw
  · rw [heq] at h
    exact .inl h
  rw [heq] at h
  obtain hold | hnew := mem_append.mp (mem_of_mem_drop h)
  · exact .inl hold
  · rw [mem_singleton.mp hnew]
    exact .inr rfl

end

/-- The line is behind the reader. -/
def Passed (s : State) (l : Line) : Prop :=
  ∃ j, s.last = some j ∧ (l.stream < j ∨ l.stream = j ∧ l.seq < s.cursor)

/-- What holds in every state: the reader only moves on, and of the stream it is at it has been
offered every line below its cursor. -/
structure Kept (s : State) : Prop where
  numbered : ∀ i, (s.buffers i).Numbered
  started : ∀ i, s.logcat = some i ∨ (∃ max, s.poll = some (i,max)) ∨ s.last = some i → i < s.streams
  ahead : ∀ i j, s.logcat = some i ∨ (∃ max, s.poll = some (i,max)) → s.last = some j → j ≤ i
  newest : ∀ i j, s.logcat = some i → (∃ max, s.poll = some (j,max)) → j ≤ i
  passed : ∀ l ∈ s.offered, Passed s l
  own : ∀ j, s.last = some j → s.cursor ≤ (s.buffers j).next ∧
    ∀ line ∈ (s.buffers j).lines, line.1 < s.cursor → tag j line ∈ s.offered
  known : s.received ⊆ s.offered
  ordered : s.received.Pairwise Line.Before

theorem kept_init : Kept init where
  numbered _ := numbered_empty
  started := by simp [init]
  ahead := by simp [init]
  newest := by simp [init]
  passed := nofun
  own := nofun
  known := nil_subset _
  ordered := .nil

section

variable {s : State} {i max : ℕ} {line : ℕ × Text}

/-- The lines a poll returns. -/
abbrev taken (s : State) (i max : ℕ) : List (ℕ × Text) := (logcatLines (s.buffers i) s.cursor max).2

theorem mem_taken (h : line ∈ taken s i max) : line ∈ (s.buffers i).lines ∧ s.cursor ≤ line.1 := by
  simpa using mem_filter.mp (mem_of_mem_take h)

theorem taken_sublist : (taken s i max).Sublist (s.buffers i).lines := (take_sublist _ _).trans filter_sublist

/-- What a poll returns is not behind the reader. -/
theorem not_passed_taken (hs : Kept s) (hp : s.poll = some (i,max)) (hc : s.cursor ≤ line.1) :
    ¬Passed s (tag i line) := by
  rintro ⟨j,hj,hlt | ⟨rfl,hlt⟩⟩
  · exact absurd (hs.ahead i j (.inr ⟨max,hp⟩) hj) (Nat.not_le.mpr hlt)
  · exact absurd hc (Nat.not_le.mpr hlt)

theorem before_of_passed (hs : Kept s) (hp : s.poll = some (i,max)) {l : Line} (hl : Passed s l)
    (hc : s.cursor ≤ line.1) : l.Before (tag i line) := by
  obtain ⟨j,hj,hlt⟩ := hl
  have hle := hs.ahead i j (.inr ⟨max,hp⟩) hj
  obtain hlt | ⟨rfl,hlt⟩ := hlt
  · exact .inl (hlt.trans_le hle)
  · obtain hlt' | heq := hle.lt_or_eq
    · exact .inl hlt'
    · exact .inr ⟨heq,hlt.trans_le hc⟩

/-- The state after a poll has read its buffer. -/
abbrev afterRead (s : State) (i max : ℕ) : State :=
  { s with
    cursor := (s.buffers i).next
    poll := none
    last := some i
    received := s.received++(taken s i max).map (tag i)
    offered := s.offered++(s.buffers i).lines.map (tag i) }

theorem kept_afterRead (hs : Kept s) (hp : s.poll = some (i,max)) : Kept (afterRead s i max) where
  numbered := hs.numbered
  started := by
    rintro k (hk | ⟨_,⟨⟩⟩ | hk)
    · exact hs.started k (.inl hk)
    · exact hs.started k (.inr (.inl ⟨max,some.inj hk ▸ hp⟩))
  ahead := by
    rintro k _ (hk | ⟨_,⟨⟩⟩) ⟨⟩
    exact hs.newest k i hk ⟨max,hp⟩
  newest := by
    rintro k j _ ⟨_,⟨⟩⟩
  passed := by
    intro l hl
    refine ⟨i,rfl,?_⟩
    obtain hold | hnew := mem_append.mp hl
    · obtain ⟨j,hj,hlt⟩ := hs.passed l hold
      have hle := hs.ahead i j (.inr ⟨max,hp⟩) hj
      obtain hlt | ⟨heq,hlt⟩ := hlt
      · exact .inl (hlt.trans_le hle)
      · obtain hlt' | rfl := hle.lt_or_eq
        · exact .inl (heq ▸ hlt')
        · exact .inr ⟨heq,hlt.trans_le (hs.own j hj).1⟩
    · obtain ⟨line,hline,rfl⟩ := mem_map.mp hnew
      exact .inr ⟨rfl,(hs.numbered i).below line hline⟩
  own := by
    rintro _ ⟨⟩
    refine ⟨le_rfl,?_⟩
    intro line hline _
    exact mem_append_right _ (mem_map_of_mem hline)
  known := by
    refine append_subset.mpr ⟨fun l hl => mem_append_left _ (hs.known hl),?_⟩
    exact fun l hl => mem_append_right _ ((taken_sublist.map (tag i)).subset hl)
  ordered := by
    refine pairwise_append.mpr ⟨hs.ordered,?_,?_⟩
    · refine pairwise_map.mpr (((hs.numbered i).sorted.sublist taken_sublist).imp ?_)
      exact fun hlt => .inr ⟨rfl,hlt⟩
    · intro l hl l' hl'
      obtain ⟨line,hline,rfl⟩ := mem_map.mp hl'
      exact before_of_passed hs hp (hs.passed l (hs.known hl)) (mem_taken hline).2

end

theorem kept_step (s : State) (a : Act) (t : State) (hs : Kept s) (h : step s a = some t) : Kept t := by
  cases a with
  | stop =>
    cases h
    exact { hs with
      started := fun i hi => hs.started i (.inr (hi.resolve_left nofun))
      ahead := fun i j hi => hs.ahead i j (.inr (hi.resolve_left nofun))
      newest := nofun }
  | insert =>
    cases h
    have hold : ∀ i, i < s.streams → update s.buffers s.streams {} i = s.buffers i := fun i hi => update_of_ne hi.ne _ _
    exact {
      numbered := (forall_update_iff _ fun _ => LogcatBuffer.Numbered).mpr ⟨numbered_empty,fun i _ => hs.numbered i⟩
      started := by
        rintro i (hi | hi)
        · exact some.inj hi ▸ Nat.lt_succ_self _
        · exact (hs.started i (.inr hi)).trans (Nat.lt_succ_self _)
      ahead := by
        rintro i j (hi | hi) hj
        · exact some.inj hi ▸ (hs.started j (.inr (.inr hj))).le
        · exact hs.ahead i j (.inr hi) hj
      newest := by
        intro i j hi hj
        exact some.inj hi ▸ (hs.started j (.inr (.inl hj))).le
      passed := hs.passed
      own := by
        intro j hj
        dsimp only
        rw [hold j (hs.started j (.inr (.inr hj)))]
        exact hs.own j hj
      known := hs.known
      ordered := hs.ordered }
  | line i raw =>
    rw [step] at h
    split_ifs at h with hi
    cases h
    exact { hs with
      numbered := (forall_update_iff _ fun _ => LogcatBuffer.Numbered).mpr ⟨(hs.numbered i).push,fun k _ => hs.numbered k⟩
      own := by
        intro j hj
        dsimp only
        obtain ⟨hle,hin⟩ := hs.own j hj
        obtain rfl | hne := eq_or_ne j i
        · rw [update_self]
          refine ⟨hle.trans LogcatBuffer.next_le_push,?_⟩
          intro line hline hlt
          obtain hold | hnew := LogcatBuffer.mem_push hline
          · exact hin line hold hlt
          · omega
        · rw [update_of_ne hne]
          exact ⟨hle,hin⟩ }
  | get max =>
    rw [step] at h
    split at h
    · rename_i i hpoll hcur
      cases h
      exact { hs with
        started := by
          rintro k (hk | ⟨_,hk⟩ | hk)
          · exact hs.started k (.inl hk)
          · exact hs.started k (.inl (hcur.trans (congrArg (some ∘ Prod.fst) (some.inj hk))))
          · exact hs.started k (.inr (.inr hk))
        ahead := by
          rintro k j (hk | ⟨_,hk⟩) hj
          · exact hs.ahead k j (.inl hk) hj
          · exact hs.ahead k j (.inl (hcur.trans (congrArg (some ∘ Prod.fst) (some.inj hk)))) hj
        newest := by
          rintro k j hk ⟨_,hj⟩
          obtain rfl : i = j := congrArg Prod.fst (some.inj hj)
          exact (some.inj (hcur.symm.trans hk)).le }
    · cases h
      exact hs
    · cases h
  | read =>
    rw [step] at h
    split at h
    · cases h
    · rename_i i max hp
      cases h
      exact kept_afterRead hs hp

/-- A poll keeps up with its stream exactly if it returns what it could have returned. -/
theorem delivered_afterRead {s : State} {i max : ℕ} (hs : Kept s) (hp : s.poll = some (i,max)) :
    Delivered (afterRead s i max) ↔ Delivered s ∧ Whole s .read := by
  have hsplit : Whole s .read ↔ ((s.buffers i).lines.filter fun line => decide (s.cursor ≤ line.1)).length ≤ Nat.max max 1 ∧
      (s.last = some i ∨ ∀ line ∈ (s.buffers i).lines, s.cursor ≤ line.1) := by
    constructor
    · exact fun h => h i max hp
    · intro h i' max' hp'
      obtain ⟨rfl,rfl⟩ := Prod.mk.inj (some.inj (hp.symm.trans hp'))
      exact h
  rw [hsplit]
  have hnew : ∀ line ∈ (s.buffers i).lines, s.cursor ≤ line.1 → tag i line ∉ s.received :=
    fun line _ hc hin => not_passed_taken hs hp hc (hs.passed _ (hs.known hin))
  constructor
  · rintro ⟨_,hall⟩
    refine ⟨⟨hs.ordered,?_⟩,?_,?_⟩
    · intro l hl
      obtain hin | hin := mem_append.mp (hall l (mem_append_left _ hl))
      · exact hin
      · obtain ⟨line,hline,rfl⟩ := mem_map.mp hin
        exact absurd (hs.passed _ hl) (not_passed_taken hs hp (mem_taken hline).2)
    · have hnodup : ((s.buffers i).lines.filter fun line => decide (s.cursor ≤ line.1)).Nodup :=
        ((hs.numbered i).sorted.imp fun hlt => ne_of_apply_ne Prod.fst hlt.ne).filter _
      have hsub : (s.buffers i).lines.filter (fun line => decide (s.cursor ≤ line.1)) ⊆ taken s i max := by
        intro line hline
        obtain ⟨hmem,hc⟩ := mem_filter.mp hline
        have hin := hall _ (mem_append_right _ (mem_map_of_mem hmem))
        obtain ⟨line',hline',heq⟩ := mem_map.mp
          ((mem_append.mp hin).resolve_left (hnew line hmem (of_decide_eq_true hc)))
        exact tag_injective i heq ▸ hline'
      exact (subperm_of_subset hnodup hsub).length_le.trans (length_take_le _ _)
    · by_contra hcon
      push Not at hcon
      obtain ⟨hlast,line,hline,hlt⟩ := hcon
      obtain hin | hin := mem_append.mp (hall _ (mem_append_right _ (mem_map_of_mem hline)))
      · obtain ⟨j,hj,hpast⟩ := hs.passed _ (hs.known hin)
        have hle := hs.ahead i j (.inr ⟨max,hp⟩) hj
        obtain hpast | ⟨rfl,_⟩ := hpast
        · exact absurd hle (Nat.not_le.mpr hpast)
        · exact hlast hj
      · obtain ⟨line',hline',heq⟩ := mem_map.mp hin
        have hseq : line'.1 = line.1 := congrArg Line.seq heq
        have hc := (mem_taken hline').2
        omega
  · rintro ⟨⟨_,hall⟩,hroom,hcur⟩
    have htaken : taken s i max = (s.buffers i).lines.filter fun line => decide (s.cursor ≤ line.1) :=
      take_of_length_le hroom
    refine ⟨(kept_afterRead hs hp).ordered,?_⟩
    intro l hl
    obtain hl | hl := mem_append.mp hl
    · exact mem_append_left _ (hall l hl)
    obtain ⟨line,hline,rfl⟩ := mem_map.mp hl
    by_cases hc : s.cursor ≤ line.1
    · refine mem_append_right _ (mem_map_of_mem ?_)
      rw [htaken]
      exact mem_filter.mpr ⟨hline,decide_eq_true hc⟩
    · have hlast := hcur.resolve_right fun h => hc (h line hline)
      exact mem_append_left _ (hall _ ((hs.own i hlast).2 line hline (Nat.not_le.mp hc)))

theorem delivered_step (s : State) (a : Act) (t : State) (hs : Kept s) (h : step s a = some t) :
    Delivered t ↔ Delivered s ∧ Whole s a := by
  cases a with
  | read =>
    rw [step] at h
    split at h
    · cases h
    · rename_i i max hp
      cases h
      exact delivered_afterRead hs hp
  | get max =>
    rw [step] at h
    split at h
    · cases h
      simp [Delivered,Whole]
    · cases h
      simp [Whole]
    · cases h
  | line i raw =>
    rw [step] at h
    split_ifs at h
    cases h
    simp [Delivered,Whole]
  | stop | insert =>
    cases h
    simp [Delivered,Whole]

/-- A reader that passes back what it is given receives every line that a poll could have returned
exactly if no poll is cut short and no cursor is used on a stream whose lines it skips. -/
theorem delivered_iff_whole {as : List Act} {s : State} (h : exec step init as = some s) :
    Delivered s ↔ Meets step Whole init as := by
  have hrun := Transition.exec_iff_meets kept_step delivered_step kept_init h
  rw [hrun]
  exact and_iff_right ⟨.nil,nofun⟩

/-- A poll that is long enough, after two lines. -/
theorem delivered_two_lines : ∃ s, exec step init [.insert,.line 0 ['a'],.line 0 ['b'],.get 2,.read] = some s ∧
    Delivered s := by
  have hs : exec step init [.insert,.line 0 ['a'],.line 0 ['b'],.get 2,.read] = some _ := rfl
  refine ⟨_,hs,(delivered_iff_whole hs).mpr ?_⟩
  refine meets_cons rfl trivial (meets_cons rfl trivial (meets_cons rfl trivial
    (meets_cons rfl trivial ⟨?_,fun _ _ => trivial⟩)))
  rintro _ _ ⟨⟩
  exact ⟨by decide,.inr (by decide)⟩

/-- A second line that a poll for one line jumps over, and the first line of a new stream that the
cursor of the old one jumps over. -/
theorem lines_skipped : (∃ s, exec step init [.insert,.line 0 ['a'],.line 0 ['b'],.get 1,.read] = some s ∧
      ⟨0,1,['b']⟩ ∈ s.offered ∧ ⟨0,1,['b']⟩ ∉ s.received ∧ s.cursor = 2) ∧
    ∃ s, exec step init [.insert,.line 0 ['a'],.get 5,.read,.stop,.insert,.line 1 ['b'],.get 5,.read] = some s ∧
      ⟨1,0,['b']⟩ ∈ s.offered ∧ ⟨1,0,['b']⟩ ∉ s.received ∧ s.cursor = 1 :=
  ⟨⟨_,rfl,by decide,by decide,rfl⟩,⟨_,rfl,by decide,by decide,rfl⟩⟩

end AdbShare.Logcat
