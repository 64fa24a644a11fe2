import MQTTv1.Publisher.RoundTrip
import MQTTv1.Publisher.TopFile

/-!
# The rounds of a publisher

`main` of `pub_client` reports for as long as it runs.  The two files keep what
earlier rounds have left in them, and `info_list` its old entries.
-/

namespace MQTTv1
namespace Publisher

open CLib
open Csapp

/-- What `top` prints in one round, and the block that `malloc` returns. -/
structure Round where
  report : TopReport Summary
  block : List Byte

structure PublisherState where
  files : Files
  infoList : InfoList
  stdout : List Byte

/-- The loop body of `main` behind its `sleep`. -/
def publishRound (clientfd : Fd) (r : Round) (s : PublisherState) (w : World) :
    Except Stop (PublisherState × World) := do
  let files := filterTopFile (updateTopFile r.report s.files)
  let (infoList, fullInfo) <-
    updateSendInfo files.infoTxt s.infoList r.block
  let w <- RioWriten clientfd (sentLine fullInfo) w
  let stdout := s.stdout ++
    (lit "Se ha enviado la informacion: " ++ sentLine fullInfo)
  return ({ files := files, infoList := infoList, stdout := stdout }, w)

def publishRounds (clientfd : Fd) : List Round -> PublisherState -> World ->
    Except Stop (PublisherState × World)
  | [], s, w => .ok (s, w)
  | r :: rounds, s, w => do
      let (s, w) <- publishRound clientfd r s w
      publishRounds clientfd rounds s w

/-!
# The two files
-/

def picked (topTxt : List Byte) : List Byte :=
  grep (lit "Cpu") topTxt ++ grep (lit "Tasks") topTxt ++
    grep (lit "Mem") topTxt

def picks : List (List Byte) -> List Byte -> List (List Byte)
  | [], _ => []
  | report :: reports, topTxt =>
      picked (overwrite topTxt report) :: picks reports (overwrite topTxt report)

def reportsOf (rounds : List Round) : List (List Byte) :=
  rounds.map fun r => r.report.bytes

section

variable {clientfd : Fd} {r : Round} {rounds : List Round}
variable {s s' : PublisherState} {w w' : World}

theorem publishRound_ok (h : publishRound clientfd r s w = .ok (s', w')) :
    exists infoList fullInfo,
      updateSendInfo (roundInfoTxt r.report s.files) s.infoList r.block =
          .ok (infoList, fullInfo) ∧
        RioWriten clientfd (sentLine fullInfo) w = .ok w' ∧
        s' =
          { files := filterTopFile (updateTopFile r.report s.files)
            infoList := infoList
            stdout := s.stdout ++
              (lit "Se ha enviado la informacion: " ++ sentLine fullInfo) } := by
  rcases bind_eq_ok.mp h with ⟨⟨infoList, fullInfo⟩, hsend, h⟩
  rcases bind_eq_ok.mp h with ⟨mid, hwrite, h⟩
  cases h
  exact ⟨infoList, fullInfo, hsend, hwrite, rfl⟩

/-- Both files are only ever written over. -/
theorem publishRounds_layered :
    forall {rounds : List Round} {s : PublisherState} {w : World},
      publishRounds clientfd rounds s w = .ok (s', w') ->
        s'.files.topTxt = layered s.files.topTxt (reportsOf rounds) ∧
          s'.files.infoTxt =
            layered s.files.infoTxt
              (picks (reportsOf rounds) s.files.topTxt) := by
  intro rounds
  induction rounds with
  | nil =>
      intro s w h
      cases h
      exact ⟨rfl, rfl⟩
  | cons r rounds ih =>
      intro s w h
      rcases bind_eq_ok.mp h with ⟨⟨mid, w1⟩, hround, h⟩
      rcases publishRound_ok hround with ⟨infoList, fullInfo, _, _, rfl⟩
      exact ih h

/--
At every position `top.txt` shows the newest report that reaches so far, and
`info.txt` the newest lines picked.  Neither file ever shrinks, and what lies
behind all reports stays.
-/
theorem publishRounds_files
    (h : publishRounds clientfd rounds s w = .ok (s', w')) :
    (forall k, s'.files.topTxt[k]? =
        topmost ((reportsOf rounds).reverse ++ [s.files.topTxt]) k) ∧
      (forall k, s'.files.infoTxt[k]? =
        topmost ((picks (reportsOf rounds) s.files.topTxt).reverse ++
          [s.files.infoTxt]) k) ∧
      s'.files.topTxt.length =
        ((reportsOf rounds).map List.length).foldl max s.files.topTxt.length ∧
      forall k, (forall report, report ∈ reportsOf rounds ->
          report.length ≤ k) ->
        s'.files.topTxt.drop k = s.files.topTxt.drop k := by
  rcases publishRounds_layered h with ⟨htop, hinfo⟩
  rw [htop, hinfo]
  refine ⟨?_, ?_, ?_, ?_⟩
  · intro k
    exact getElem?_layered _ k _
  · intro k
    exact getElem?_layered _ k _
  · exact length_layered _ _
  · intro k hshort
    exact drop_layered _ _ hshort

/-!
# One line a round
-/

def publishedMessage (r : Round) : CStr := r.report.summary.pickedLine

/-- Nothing but the summary is picked, and the block starts empty. -/
structure Round.Undisturbed (r : Round) (files : Files) : Prop where
  unmatched : (surroundings r.report files).Unmatched
  fits : r.report.summary.text.length ≤ LIMIT_READ
  cleared : stringOf r.block = []

def AllUndisturbed : List Round -> Files -> Prop
  | [], _ => True
  | r :: rounds, files =>
      r.Undisturbed files ∧
        AllUndisturbed rounds (filterTopFile (updateTopFile r.report files))

theorem Round.Undisturbed.sends {files : Files} (h : r.Undisturbed files)
    (infoList : InfoList) :
    exists infoList' fullInfo,
      updateSendInfo (roundInfoTxt r.report files) infoList r.block =
          .ok (infoList', fullInfo) ∧
        sentLine fullInfo = publishedMessage r := by
  rcases roundInfoTxt_summary h.unmatched with ⟨rest, hinfo⟩
  rcases r.report.summary.updateSendInfo_line rest infoList r.block h.fits with
    ⟨infoList', fullInfo, hsend, hline⟩
  rw [h.cleared, List.nil_append] at hline
  rw [hinfo]
  exact ⟨infoList', fullInfo, hsend, hline⟩

theorem publishRound_sent (h : r.Undisturbed s.files)
    (hround : publishRound clientfd r s w = .ok (s', w')) :
    s'.files = filterTopFile (updateTopFile r.report s.files) ∧
      w'.sent = Function.update w.sent clientfd
        (w.sent clientfd ++ publishedMessage r) ∧
      s'.stdout = s.stdout ++
        (lit "Se ha enviado la informacion: " ++ publishedMessage r) := by
  rcases publishRound_ok hround with ⟨infoList, fullInfo, hsend, hwrite, rfl⟩
  rcases h.sends s.infoList with ⟨infoList', fullInfo', hsend', hline⟩
  cases hsend.symm.trans hsend'
  rw [hline] at hwrite
  exact ⟨rfl, (RioWriten_ok hwrite).right, by rw [hline]⟩

theorem publishRounds_sent :
    forall {rounds : List Round} {s : PublisherState} {w : World},
      AllUndisturbed rounds s.files ->
      publishRounds clientfd rounds s w = .ok (s', w') ->
        w'.sent clientfd =
            w.sent clientfd ++ rounds.flatMap publishedMessage ∧
          s'.stdout = s.stdout ++ rounds.flatMap fun r =>
            lit "Se ha enviado la informacion: " ++ publishedMessage r := by
  intro rounds
  induction rounds with
  | nil =>
      intro s w _ h
      cases h
      simp
  | cons r rounds ih =>
      intro s w hall h
      rcases bind_eq_ok.mp h with ⟨⟨mid, w1⟩, hround, h⟩
      rcases publishRound_sent hall.left hround with ⟨hfiles, hsent, hstdout⟩
      have hrest : AllUndisturbed rounds mid.files := by
        rw [hfiles]
        exact hall.right
      rcases ih hrest h with ⟨hsent', hstdout'⟩
      constructor
      · rw [hsent', hsent, Function.update_self, List.flatMap_cons,
          List.append_assoc]
      · rw [hstdout', hstdout, List.flatMap_cons, List.append_assoc]

theorem publishRounds_returns :
    forall {rounds : List Round} {s : PublisherState} {w : World},
      AllUndisturbed rounds s.files -> Accepting (w.writes clientfd) ->
        exists s' w', publishRounds clientfd rounds s w = .ok (s', w') := by
  intro rounds
  induction rounds with
  | nil =>
      intro s w _ _
      exact ⟨s, w, rfl⟩
  | cons r rounds ih =>
      intro s w hall hw
      rcases hall.left.sends s.infoList with
        ⟨infoList, fullInfo, hsend, _⟩
      rcases RioWriten_accepting hw (sentLine fullInfo) with
        ⟨w1, hwrite, haccepting⟩
      unfold roundInfoTxt at hsend
      unfold publishRounds publishRound
      simp only [hsend, hwrite, bind, Except.bind, pure, Except.pure]
      exact ih hall.right haccepting

/-!
# Reports that do not shrink
-/

/-- A report with no other line that `exec_grep` picks too early. -/
structure Round.Plain (r : Round) : Prop where
  uptime : forall pattern, pattern ∈ [lit "Cpu", lit "Tasks", lit "Mem"] ->
    contains pattern r.report.uptime.text = false
  rows : forall pattern, pattern ∈ [lit "Cpu", lit "Tasks"] ->
    forall row, row ∈ r.report.rows -> contains pattern row.text = false
  fits : r.report.summary.text.length ≤ LIMIT_READ
  cleared : stringOf r.block = []

/-- No report is shorter than the file or than an earlier report. -/
def Growing (size : Nat) (rounds : List Round) : Prop :=
  (size :: (reportsOf rounds).map List.length).Pairwise fun n m => n ≤ m

theorem Round.Plain.undisturbed {files : Files} (h : r.Plain)
    (hlength : files.topTxt.length ≤ r.report.bytes.length) :
    r.Undisturbed files where
  unmatched := by
    constructor
    · exact h.uptime
    · intro pattern hpattern line hline
      have hnone : (surroundings r.report files).overhang = [] :=
        List.drop_eq_nil_of_le hlength
      rw [hnone] at hline
      rcases List.mem_append.mp hline with hrow | hover
      · rcases List.mem_map.mp hrow with ⟨row, hmem, rfl⟩
        exact h.rows pattern hpattern row hmem
      · cases hover
  fits := h.fits
  cleared := h.cleared

theorem Growing.undisturbed :
    forall {rounds : List Round} {files : Files},
      Growing files.topTxt.length rounds ->
      (forall r, r ∈ rounds -> r.Plain) -> AllUndisturbed rounds files := by
  intro rounds
  induction rounds with
  | nil =>
      intro files _ _
      trivial
  | cons r rounds ih =>
      intro files hgrow hplain
      rcases List.pairwise_cons.mp hgrow with ⟨hfirst, hrest⟩
      have hlength : files.topTxt.length ≤ r.report.bytes.length :=
        hfirst _ List.mem_cons_self
      refine ⟨(hplain r List.mem_cons_self).undisturbed hlength, ih ?_ ?_⟩
      · have htop : (filterTopFile (updateTopFile r.report files)).topTxt =
            r.report.bytes := overwrite_of_length_le hlength
        rw [htop]
        exact hrest
      · intro other hother
        exact hplain other (List.mem_cons_of_mem r hother)

/--
As long as no report shrinks and none has a line with a picked word of its own,
the publisher sends one line for each of them, made of its own summary, whatever
the files and `info_list` held before.
-/
theorem publishRounds_one_line_each (rounds : List Round) (s : PublisherState)
    (w : World) (hgrow : Growing s.files.topTxt.length rounds)
    (hplain : forall r, r ∈ rounds -> r.Plain)
    (hw : Accepting (w.writes clientfd)) :
    exists s' w',
      publishRounds clientfd rounds s w = .ok (s', w') ∧
        w'.sent clientfd =
          w.sent clientfd ++ rounds.flatMap publishedMessage ∧
        s'.stdout = s.stdout ++ rounds.flatMap fun r =>
          lit "Se ha enviado la informacion: " ++ publishedMessage r := by
  have hall := hgrow.undisturbed hplain
  rcases publishRounds_returns hall hw with ⟨s', w', hrun⟩
  exact ⟨s', w', hrun, publishRounds_sent hall hrun⟩

end

/-!
# A publisher on the machine of `top.txt`
-/

def idleRound : Round where
  report := reportWith []
  block := List.replicate 64 0

theorem idleRound_plain : idleRound.Plain where
  uptime := by decide +kernel
  rows := by
    intro pattern _ row hrow
    cases hrow
  fits := by decide +kernel
  cleared := rfl

def editorTxt : Line where
  text := lit
    "  25276 eduardo   20   0   20,9g 166540 114704 S   6,2   2,1  10:27.09 code"
  single := by decide

/-- A thousand more tasks, an editor, and a block that was in use before. -/
def busyRound : Round where
  report :=
    { uptime := uptimeTxt
      summary :=
        { summaryTxt with
          total := countOf (lit "1293") (by decide) rfl
          sleeping := countOf (lit "1290") (by decide) rfl }
      rows := [editorTxt] }
  block := 0 :: lit "93,290,0,35.2,0.0,55.225"

theorem busyRound_plain : busyRound.Plain where
  uptime := idleRound_plain.uptime
  rows := by
    intro pattern hpattern row hrow
    rw [List.mem_singleton.mp hrow]
    revert pattern
    decide +kernel
  fits := by decide +kernel
  cleared := rfl

def idleMessage : CStr := lit "293,290,0,35.2,0.0,55.225" ++ [newline]

theorem publishedMessage_idleRound :
    publishedMessage idleRound = idleMessage := by
  decide +kernel

theorem publishedMessage_busyRound :
    publishedMessage busyRound =
      lit "1293,1290,0,35.2,0.0,55.225" ++ [newline] := by
  decide +kernel

def newPublisher : PublisherState where
  files := noFiles
  infoList := fun _ => none
  stdout := []

theorem growing_idleRound :
    Growing newPublisher.files.topTxt.length [idleRound] := by
  apply List.pairwise_pair.mpr
  exact Nat.zero_le _

theorem plain_idleRound (r : Round) (hr : r ∈ [idleRound]) : r.Plain := by
  rw [List.mem_singleton.mp hr]
  exact idleRound_plain

theorem growing_idle_busy :
    Growing newPublisher.files.topTxt.length [idleRound, busyRound] := by
  have hgrows : idleRound.report.bytes.length ≤
      busyRound.report.bytes.length := by decide +kernel
  simp [Growing, reportsOf, newPublisher, noFiles, hgrows]

theorem plain_idle_busy (r : Round) (hr : r ∈ [idleRound, busyRound]) :
    r.Plain := by
  rcases List.mem_pair.mp hr with rfl | rfl
  · exact idleRound_plain
  · exact busyRound_plain

/-- The tail that the busy round leaves in `top.txt` has no picked word. -/
theorem undisturbed_busy_idle :
    AllUndisturbed [busyRound, idleRound] newPublisher.files := by
  refine ⟨busyRound_plain.undisturbed (Nat.zero_le _), ?_, trivial⟩
  constructor
  · constructor
    · exact idleRound_plain.uptime
    · decide +kernel
  · exact idleRound_plain.fits
  · exact idleRound_plain.cleared

theorem quietWorld_accepting :
    Accepting ((Broker.quietWorld []).writes 3) := by
  simp [Accepting, Broker.quietWorld]

theorem layered_busy_idle :
    layered newPublisher.files.topTxt (reportsOf [busyRound, idleRound]) =
      idleRound.report.bytes ++ ended (lit " ") ++ ended editorTxt.text := by
  decide +kernel

theorem layered_picks_busy_idle :
    layered newPublisher.files.infoTxt
        (picks (reportsOf [busyRound, idleRound]) newPublisher.files.topTxt) =
      picked idleRound.report.bytes ++ ended (lit " ") := by
  decide +kernel

/-- The shorter report leaves a row of the older one behind it. -/
theorem publishRounds_files_busy_idle :
    exists s' w',
      publishRounds 3 [busyRound, idleRound] newPublisher
          (Broker.quietWorld []) = .ok (s', w') ∧
        s'.files.topTxt =
          idleRound.report.bytes ++ ended (lit " ") ++ ended editorTxt.text ∧
        s'.files.infoTxt =
          picked idleRound.report.bytes ++ ended (lit " ") := by
  rcases publishRounds_returns undisturbed_busy_idle quietWorld_accepting with
    ⟨s', w', hrun⟩
  rcases publishRounds_files hrun with ⟨htop, hinfo, _, _⟩
  refine ⟨s', w', hrun, ?_, ?_⟩
  · apply List.ext_getElem?
    intro k
    rw [htop, ← getElem?_layered, layered_busy_idle]
  · apply List.ext_getElem?
    intro k
    rw [hinfo, ← getElem?_layered, layered_picks_busy_idle]

/-- Two lines, one for each report. -/
theorem publishRounds_one_line_each_idle_busy :
    exists s' w',
      publishRounds 3 [idleRound, busyRound] newPublisher
          (Broker.quietWorld []) = .ok (s', w') ∧
        w'.sent 3 = idleMessage ++
          (lit "1293,1290,0,35.2,0.0,55.225" ++ [newline]) := by
  rcases publishRounds_one_line_each [idleRound, busyRound] newPublisher
    (Broker.quietWorld []) growing_idle_busy plain_idle_busy
    quietWorld_accepting with ⟨s', w', hrun, hsent, _⟩
  refine ⟨s', w', hrun, ?_⟩
  rw [hsent, List.flatMap_cons, List.flatMap_singleton,
    publishedMessage_idleRound, publishedMessage_busyRound]
  rfl

end Publisher
end MQTTv1
