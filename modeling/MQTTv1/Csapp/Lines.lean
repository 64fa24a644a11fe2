import Mathlib.Algebra.Order.Ring.Int
import MQTTv1.Csapp.Rio

/-!
# Reading lines from a chunked stream

How a byte stream is cut into the results of `read` calls is up to the kernel.
The theorems below follow one `rio_readlineb` call through an arbitrary cut: it
returns the next line of the stream, and it keeps exactly the bytes behind the
line end of the last chunk it had to fetch.
-/

namespace MQTTv1
namespace Csapp

open CLib

abbrev Chunk := List Byte

def delivered (chunks : List Chunk) : List ReadResult :=
  chunks.map ReadResult.bytes

/-- A `read` call that returns data returns at least one byte. -/
def NonEmptyChunks (chunks : List Chunk) : Prop :=
  forall c, c ∈ chunks -> c ≠ []

/-- A newline-terminated line that fits a buffer of `MAXLINE` bytes. -/
structure IsLine (l : List Byte) : Prop where
  terminated : exists body, l = body ++ [newline] ∧ newline ∉ body
  short : l.length < MAXLINE

theorem IsLine.ne_nil {l : List Byte} (hl : IsLine l) : l ≠ [] := by
  rcases hl.terminated with ⟨body, hbody, _⟩
  rw [hbody]
  simp

/-!
## One byte
-/

theorem rioRead_one_unread (fd : Fd) (c : Byte) (u : List Byte)
    (input : List ReadResult) :
    rioRead { rioFd := fd, unread := c :: u } 1 input =
      some ((1, [c]), { rioFd := fd, unread := u }, input) := by
  simp [rioRead]

theorem rioRead_one_chunk (fd : Fd) (c : Byte) (bs : List Byte)
    (input : List ReadResult) :
    rioRead { rioFd := fd, unread := [] } 1 (.bytes (c :: bs) :: input) =
      some ((1, [c]), { rioFd := fd, unread := bs }, input) := by
  have hpos : ¬ ((bs.length : Int) + 1 ≤ 0) := by lia
  simp [rioRead, refill, hpos]

/-- The bytes a call of `rio_readlineb` fetches but does not hand out. -/
structure ReadAhead (unread : List Byte) (chunks fetched left : List Chunk)
    (ahead : List Byte) : Prop where
  split : chunks = fetched ++ left
  /-- What stays behind is part of the last chunk fetched. -/
  shorter : (fetched = [] ∧ ahead.length < unread.length) ∨
    exists before last, fetched = before ++ [last] ∧ ahead.length < last.length

/-- Step lemma: the next byte of the stream, wherever it is. -/
theorem rioRead_one (fd : Fd) {unread : List Byte} {chunks : List Chunk}
    {c : Byte} {tail : List Byte} (hchunks : NonEmptyChunks chunks)
    (hstream : unread ++ chunks.flatten = c :: tail) :
    exists ahead fetched left,
      rioRead { rioFd := fd, unread := unread } 1 (delivered chunks) =
          some ((1, [c]), { rioFd := fd, unread := ahead }, delivered left) ∧
        ahead ++ left.flatten = tail ∧
        ReadAhead unread chunks fetched left ahead := by
  cases unread with
  | cons b u =>
      have hb : b = c ∧ u ++ chunks.flatten = tail := by
        simpa using hstream
      rcases hb with ⟨rfl, htail⟩
      refine ⟨u, [], chunks, rioRead_one_unread fd b u _, htail, rfl, ?_⟩
      exact Or.inl ⟨rfl, Nat.lt_succ_self u.length⟩
  | nil =>
      cases chunks with
      | nil => simp at hstream
      | cons chunk rest =>
          cases chunk with
          | nil => exact absurd rfl (hchunks [] (List.mem_cons_self ..))
          | cons b bs =>
              have hb : b = c ∧ bs ++ rest.flatten = tail := by
                simpa using hstream
              rcases hb with ⟨rfl, htail⟩
              refine ⟨bs, [b :: bs], rest,
                rioRead_one_chunk fd b bs (delivered rest), htail, rfl, ?_⟩
              exact Or.inr ⟨[], b :: bs, rfl, Nat.lt_succ_self bs.length⟩

theorem ReadAhead.trans {unread mid ahead : List Byte}
    {chunks fetched left fetched' left' : List Chunk}
    (h : ReadAhead unread chunks fetched left mid)
    (h' : ReadAhead mid left fetched' left' ahead) :
    ReadAhead unread chunks (fetched ++ fetched') left' ahead := by
  refine ⟨?_, ?_⟩
  · rw [h.split, h'.split, List.append_assoc]
  · rcases h'.shorter with ⟨hnil, hlt⟩ | ⟨before, last, hlast, hlt⟩
    · rw [hnil, List.append_nil]
      rcases h.shorter with ⟨hnil', hlt'⟩ | ⟨before, last, hlast, hlt'⟩
      · exact Or.inl ⟨hnil', by lia⟩
      · exact Or.inr ⟨before, last, hlast, by lia⟩
    · refine Or.inr ⟨fetched ++ before, last, ?_, hlt⟩
      rw [hlast, List.append_assoc]

theorem NonEmptyChunks.left {chunks fetched left : List Chunk}
    (hchunks : NonEmptyChunks chunks) (hsplit : chunks = fetched ++ left) :
    NonEmptyChunks left := by
  intro c hc
  apply hchunks c
  rw [hsplit]
  exact List.mem_append.mpr (Or.inr hc)

/-!
## One line
-/

theorem readLoop_line (fd : Fd) :
    forall (body stored : List Byte) {budget : Nat} {unread tail : List Byte}
      {chunks : List Chunk},
      newline ∉ body -> body.length < budget -> NonEmptyChunks chunks ->
      unread ++ chunks.flatten = (body ++ [newline]) ++ tail ->
      exists ahead fetched left,
        readLoop budget stored { rioFd := fd, unread := unread }
            (delivered chunks) =
          (.line (stored ++ (body ++ [newline])),
            { rioFd := fd, unread := ahead }, delivered left) ∧
        ahead ++ left.flatten = tail ∧
        ReadAhead unread chunks fetched left ahead := by
  intro body
  induction body with
  | nil =>
      intro stored budget unread tail chunks _ hbudget hchunks hstream
      rcases rioRead_one fd hchunks hstream with
        ⟨ahead, fetched, left, hread, htail, hahead⟩
      refine ⟨ahead, fetched, left, ?_, htail, hahead⟩
      cases budget with
      | zero => lia
      | succ budget =>
          simp [readLoop, hread]
  | cons c body ih =>
      intro stored budget unread tail chunks hfree hbudget hchunks hstream
      have hc : c ≠ newline := by
        intro hc
        exact hfree (by simp [hc])
      rcases rioRead_one fd hchunks hstream with
        ⟨mid, fetched, left, hread, htail, hmid⟩
      cases budget with
      | zero => simp at hbudget
      | succ budget =>
          have hbudget' : body.length < budget := by
            simpa using hbudget
          rcases ih (stored ++ [c])
              (fun h => hfree (List.mem_cons_of_mem c h)) hbudget'
              (hchunks.left hmid.split) htail with
            ⟨ahead, fetched', left', hloop, htail', hahead⟩
          refine ⟨ahead, fetched ++ fetched', left', ?_, htail',
            hmid.trans hahead⟩
          simp [readLoop, hread, hc, hloop]

/-- A line at the head of the stream is what `rio_readlineb` returns. -/
theorem rioReadlineb_line (fd : Fd) {l unread tail : List Byte}
    {chunks : List Chunk} (hl : IsLine l) (hchunks : NonEmptyChunks chunks)
    (hstream : unread ++ chunks.flatten = l ++ tail) :
    exists ahead fetched left,
      rioReadlineb { rioFd := fd, unread := unread } MAXLINE
          (delivered chunks) =
        (.line l, { rioFd := fd, unread := ahead }, delivered left) ∧
      ahead ++ left.flatten = tail ∧
      ReadAhead unread chunks fetched left ahead := by
  rcases hl.terminated with ⟨body, rfl, hfree⟩
  have hbudget : body.length < MAXLINE - 1 := by
    have hshort := hl.short
    simp only [List.length_append, List.length_singleton] at hshort
    lia
  simpa [rioReadlineb] using
    readLoop_line fd body [] hfree hbudget hchunks hstream

/-!
## Accounting

Whatever the stream looks like, a call returns no more bytes than it takes from
the buffer and the socket.
-/

theorem readLoop_accounts (fd : Fd) :
    forall (budget : Nat) (stored unread : List Byte) {chunks : List Chunk},
      NonEmptyChunks chunks ->
      (exists rp,
        readLoop budget stored { rioFd := fd, unread := unread }
          (delivered chunks) = (.blocked, rp, [])) ∨
      exists bs ahead fetched left,
        readLoop budget stored { rioFd := fd, unread := unread }
            (delivered chunks) =
          (.line bs, { rioFd := fd, unread := ahead }, delivered left) ∧
        chunks = fetched ++ left ∧
        stored ++ unread ++ fetched.flatten = bs ++ ahead := by
  intro budget
  induction budget with
  | zero =>
      intro stored unread chunks _
      exact Or.inr ⟨stored, unread, [], chunks, rfl, rfl, by simp⟩
  | succ budget ih =>
      intro stored unread chunks hchunks
      cases hstream : unread ++ chunks.flatten with
      | nil =>
          have hunread := (List.append_eq_nil_iff.mp hstream).left
          have hflat := (List.append_eq_nil_iff.mp hstream).right
          cases chunks with
          | cons chunk rest =>
              have hchunk : chunk = [] := by
                simpa using (List.append_eq_nil_iff.mp hflat).left
              exact absurd hchunk (hchunks chunk (List.mem_cons_self ..))
          | nil =>
              rw [hunread]
              exact Or.inl ⟨_, rfl⟩
      | cons c tail =>
          rcases rioRead_one fd hchunks hstream with
            ⟨mid, fetched, left, hread, htail, hmid⟩
          have hmoved : unread ++ fetched.flatten = c :: mid := by
            have h := hstream
            rw [hmid.split, List.flatten_append, ← List.append_assoc,
              ← htail, ← List.cons_append] at h
            exact List.append_cancel_right h
          by_cases hc : c = newline
          · refine Or.inr ⟨stored ++ [c], mid, fetched, left, ?_, hmid.split, ?_⟩
            · simp [readLoop, hread, hc]
            · rw [List.append_assoc, hmoved]
              simp
          · have hnext :
                readLoop (budget + 1) stored { rioFd := fd, unread := unread }
                    (delivered chunks) =
                  readLoop budget (stored ++ [c])
                    { rioFd := fd, unread := mid } (delivered left) := by
              simp [readLoop, hread, hc]
            rw [hnext]
            rcases ih (stored ++ [c]) mid (hchunks.left hmid.split) with
              hblocked | hline
            · exact Or.inl hblocked
            · rcases hline with
                ⟨bs, ahead, fetched', left', hloop, hsplit, hbytes⟩
              refine Or.inr ⟨bs, ahead, fetched ++ fetched', left', hloop, ?_, ?_⟩
              · rw [hmid.split, hsplit, List.append_assoc]
              · rw [← hbytes, List.flatten_append, List.append_assoc,
                  ← List.append_assoc unread, hmoved]
                simp

theorem RioReadlineb_line {fd : Fd} {w : World} {l tail : List Byte}
    {chunks : List Chunk} (unread : List Byte)
    (hw : w.input fd = delivered chunks) (hl : IsLine l)
    (hchunks : NonEmptyChunks chunks)
    (hstream : unread ++ chunks.flatten = l ++ tail) :
    exists ahead fetched left,
      RioReadlineb { rioFd := fd, unread := unread } MAXLINE w =
        .ok (some l, { rioFd := fd, unread := ahead },
          w.setInput fd (delivered left)) ∧
      ahead ++ left.flatten = tail ∧
      ReadAhead unread chunks fetched left ahead := by
  rcases rioReadlineb_line fd hl hchunks hstream with
    ⟨ahead, fetched, left, hread, htail, hahead⟩
  refine ⟨ahead, fetched, left, ?_, htail, hahead⟩
  unfold RioReadlineb
  simp only
  rw [hw, hread]

end Csapp
end MQTTv1
