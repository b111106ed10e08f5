import Croc.Lib.Groups
import Croc.Lib.Zip
import Croc.Idma.Copy

/-!
# A transfer that is reported is done

The FIFO of marks holds two flags for each write that was granted: that it is the last of its
transfer, and that its transfer is the last of its job. The backend reports a transfer when the
answer to a write with the first flag comes in.

## Main definitions

* `finishedBy`: the transfers that a list of marks finishes.

## Main results

* `finishedBy_of_isPrefix`: marks that are counted off in order finish the transfers in order.
* `Backend.Disciplined.reported_writes`, `Backend.Disciplined.destinations_isPrefix`: what was
  reported was written.
* `Backend.copies`: the backend copies.
-/

namespace Croc

namespace Idma

open Clocked ByteMemory

/-! ### Marks -/

/-- The transfers that a list of marks finishes: their `last` flags. -/
def finishedBy (marks : List (Bool × Bool)) : List Bool :=
  marks.flatMap fun m => if m.2 then [m.1] else []

theorem finishedBy_append (A B : List (Bool × Bool)) :
    finishedBy (A ++ B) = finishedBy A ++ finishedBy B :=
  List.flatMap_append

theorem finishedBy_of_unmarked {A : List (Bool × Bool)} (h : ∀ m ∈ A, m.2 = false) :
    finishedBy A = [] :=
  List.flatMap_eq_nil_iff.mpr fun m hm => by rw [h m hm]; rfl

/-- A transfer ends for each mark. -/
theorem length_finishedBy (A : List (Bool × Bool)) : (finishedBy A).length = A.countP Prod.snd := by
  induction A with
  | nil => rfl
  | cons m A ih =>
    obtain ⟨a, b⟩ := m
    rw [finishedBy, List.flatMap_cons, List.length_append, ← finishedBy, ih, List.countP_cons,
      Nat.add_comm]
    cases b <;> rfl

/-- The last beat of a transfer is marked, and no other. -/
theorem ends_writeMarks (q : BurstReq) : Groups.Ends Prod.snd q.writeMarks :=
  ⟨_, _, rfl, rfl, fun m hm => by rw [List.eq_of_mem_replicate hm]⟩

/-- The marks of one transfer finish it once. -/
theorem finishedBy_writeMarks (q : BurstReq) : finishedBy q.writeMarks = [q.last] := by
  rw [BurstReq.writeMarks, lastMarks, finishedBy_append,
    finishedBy_of_unmarked fun m hm => by rw [List.eq_of_mem_replicate hm]]
  rfl

/-- Marks that are counted off in order finish the transfers in order, and only with all their
beats. -/
theorem finishedBy_of_isPrefix {T : List BurstReq} {A : List (Bool × Bool)}
    (h : A <+: T.flatMap BurstReq.writeMarks) :
    finishedBy A = (T.take (finishedBy A).length).map BurstReq.last ∧
      (T.take (finishedBy A).length).flatMap BurstReq.writeMarks <+: A := by
  obtain ⟨rest, hA, hrest⟩ := Groups.take_countP (fun q _ => ends_writeMarks q) h
  rw [length_finishedBy]
  constructor
  · conv_lhs => rw [hA]
    rw [finishedBy_append, finishedBy_of_unmarked hrest, List.append_nil, finishedBy,
      List.flatMap_assoc]
    have hq : ∀ q : BurstReq,
        (q.writeMarks.flatMap fun m => if m.2 then [m.1] else []) = [q.last] :=
      finishedBy_writeMarks
    simp only [hq]
    exact List.flatMap_pure_eq_map _ _
  · conv_rhs => rw [hA]
    exact List.prefix_append _ _

theorem length_writeMarks (T : List BurstReq) :
    (T.flatMap BurstReq.writeMarks).length = (T.flatMap BurstReq.writeBeats).length := by
  have hq : ∀ q : BurstReq, q.writeMarks.length = q.writeBeats.length := by
    intro q
    have hpos : 0 < q.writeBeats.length := by
      rw [BurstReq.writeBeats, List.length_map, beats]
      split <;> simp
    rw [BurstReq.writeMarks, lastMarks, List.length_append, List.length_replicate,
      List.length_singleton]
    omega
  simp only [List.length_flatMap, hq]

/-! ### Runs -/

namespace Backend

section Run

variable {ins : ℕ → BackendIn} (t : ℕ)

/-- A report is made for each answer to a marked beat. -/
theorem reportLog_eq : reportLog ins t = finishedBy (machine.log ins answered t) := by
  rw [reportLog, finishedBy, ← Machine.log_flatMap]
  congr 1
  funext s i
  rw [report, answered, dpRspValid]
  generalize s.marks i = m
  obtain ⟨a, b⟩ := m
  cases s.wDpRspValid i <;> cases s.rspReady i <;> cases b <;> rfl

/-- The beats are answered in the order of the transfers. -/
theorem Disciplined.answered_isPrefix (h : Disciplined ins) :
    machine.log ins answered t <+: (transfers ins t).flatMap BurstReq.writeMarks := by
  rw [log_writeMark, h.log_answered, List.append_assoc]
  exact List.prefix_append _ _

/-- The transfers that were reported are the first that were taken. All their writes were granted
and answered. -/
theorem Disciplined.reported_writes (h : Disciplined ins) :
    reportLog ins t = ((transfers ins t).take (reportLog ins t).length).map BurstReq.last ∧
      (((transfers ins t).take (reportLog ins t).length).flatMap BurstReq.writeBeats).length ≤
        (ackLog ins t).length := by
  obtain ⟨hlast, hmarks⟩ := finishedBy_of_isPrefix (h.answered_isPrefix t)
  rw [← reportLog_eq] at hlast hmarks
  have hbal := (h.balanced_write t).held
  refine ⟨hlast, ?_⟩
  calc _ = (((transfers ins t).take (reportLog ins t).length).flatMap BurstReq.writeMarks).length :=
        (length_writeMarks _).symm
    _ ≤ (machine.log ins answered t).length := hmarks.length_le
    _ ≤ (ackLog ins t).length := by omega

/-- All bytes of the transfers that were reported were written. -/
theorem Disciplined.destinations_isPrefix (h : Disciplined ins) :
    destinations ((transfers ins t).take (reportLog ins t).length) <+:
      (written ins t).map Prod.fst := by
  have hacks := (h.reported_writes t).2
  have hle : (ackLog ins t).length ≤ (writeLog ins t).length := (h.balanced_write t).answered
  set T := transfers ins t
  set n := (reportLog ins t).length
  have hsplit : T.flatMap BurstReq.writeBeats =
      (T.take n).flatMap BurstReq.writeBeats ++ (T.drop n).flatMap BurstReq.writeBeats := by
    rw [← List.flatMap_append, List.take_append_drop]
  rw [map_fst_written, ← bytes_writeBeats]
  refine List.IsPrefix.flatMap ?_ _
  rw [hsplit]
  exact List.prefix_take_iff.mpr ⟨List.prefix_append _ _, by omega⟩

/-- **The backend copies.** In any run in which the ports answer only what was requested, the words
that are read are those of the transfers, in order; the bytes that are written go to the
destinations of the transfers, in order, and are those that were fetched; the transfers that are
reported are the first that were taken, each once and with its `last` flag, and by then all their
bytes have been written and all their writes have been answered. -/
theorem copies (h : Disciplined ins) :
    readLog ins t <+: readAddrs (transfers ins t) ∧
      written ins t <+:
        (destinations (transfers ins t)).zip (fetched (transfers ins t) (rspLog ins t)) ∧
      reportLog ins t = ((transfers ins t).take (reportLog ins t).length).map BurstReq.last ∧
      destinations ((transfers ins t).take (reportLog ins t).length) <+:
        (written ins t).map Prod.fst ∧
      (((transfers ins t).take (reportLog ins t).length).flatMap BurstReq.writeBeats).length ≤
        (ackLog ins t).length :=
  ⟨readLog_isPrefix t, h.written_isPrefix t, (h.reported_writes t).1, h.destinations_isPrefix t,
    (h.reported_writes t).2⟩

end Run

/-- A transfer of three bytes, on ports that grant at once and answer in the next cycle. -/
def threeBytes (t : ℕ) : BackendIn where
  req := if t = 0 then some ⟨3, 0x1003, 0x2001, true⟩ else none
  rspReady := true
  rGnt := true
  rRsp := if t = 2 then some 0x13121110 else if t = 4 then some 0x17161514 else none
  wGnt := true
  wRsp := if t = 6 then some () else none
  stale := ⟨⟨0, 0, 0⟩, ⟨0, 0, 0⟩, (false, false), fun _ => 0⟩

theorem disciplined_threeBytes : Disciplined threeBytes where
  read t h := by
    simp only [threeBytes] at h
    split_ifs at h with h2 h4
    · subst h2
      decide +kernel
    · subst h4
      decide +kernel
    · cases h
  write t h := by
    simp only [threeBytes] at h
    split_ifs at h with h6
    · subst h6
      decide +kernel
    · cases h

/-- Three bytes from `0x1003` to `0x2001`, over the end of a word on one side. -/
theorem copies_threeBytes : Disciplined threeBytes ∧ reportLog threeBytes 7 = [true] ∧
    written threeBytes 7 = [(0x2001, 0x13), (0x2002, 0x14), (0x2003, 0x15)] ∧
    destinations ((transfers threeBytes 7).take (reportLog threeBytes 7).length) <+:
      (written threeBytes 7).map Prod.fst :=
  ⟨disciplined_threeBytes, by decide +kernel, by decide +kernel,
    (copies 7 disciplined_threeBytes).2.2.2.1⟩

end Backend

end Idma

end Croc
