import Haulage.Proofs.Files.BufferedLines
import Haulage.Proofs.Run.FileCopy

/-!
# Runs that are cut short

A run that fails once its target is open gives up the buffer between the copy and the target. Behind
what the mode keeps, the target is left with the lines that had gone out by then. They all have
their newlines unless the last of them was parted from its own, which was still in the buffer.

- `files_toFile_of_fails`: what a transfer that is cut short leaves behind.
- `whole_lines_iff`: when a run that is cut short leaves whole lines.
- `wide_row_torn`: a row that is left without its newline.
-/

set_option autoImplicit false

namespace Haulage

open FileSystem

namespace Transfer

variable {s : Surroundings} {fs fs₁ : FileSystem} {o : RunOptions} {source target : Path}
  {plan : CopyPlan} {d : Destination}

/-! ## What goes out -/

/-- The lines that a copy puts out, whether it fails or not; without a source there are none. -/
def putOut (s : Surroundings) (fs : FileSystem) (o : RunOptions) (source : Path) (plan : CopyPlan) :
    List String :=
  match Copy.file fs source o plan s.cancelAfter with
  | .error _ => []
  | .ok c => c.written

theorem newline_not_mem_of_mem_putOut :
    ∀ line ∈ putOut s fs o source plan, '\n' ∉ line.toList := by
  rw [putOut]
  split
  · exact fun _ hline => absurd hline List.not_mem_nil
  · rename_i c hcopy
    exact Copy.newline_not_mem_of_file hcopy

theorem foldl_write_chunks (w : Buffered) (written : List String) :
    (chunks written).foldl Buffered.write w = written.foldl Buffered.putLine w := by
  induction written generalizing w with
  | nil => rfl
  | cons line more ih =>
      have hchunks : chunks (line :: more) = Utf8.encode line :: [0x0A] :: chunks more := rfl
      rw [hchunks, List.foldl_cons, List.foldl_cons, ih, List.foldl_cons, Buffered.putLine]

/-- A copy that fails loses what is still in the buffer. -/
theorem deliveredBytes_of_fails {c : Copied} {f : Failure} (h : c.failure = some f) :
    deliveredBytes c = (Buffered.putLines c.written).delivered := by
  rw [deliveredBytes, h, foldl_write_chunks]
  rfl

/-- A transfer that fails once its target is open leaves what has gone out behind what is kept. -/
theorem files_toFile_of_fails (hopens : Opens fs o source target plan fs₁ d) {f : Failure}
    (hfails : (toFile s fs o source target).result = .error f) :
    (toFile s fs o source target).files =
      fs₁.put d.place (.file (d.kept o.appends ++
        (Buffered.putLines (putOut s (opened fs₁ d o.appends) o source plan)).delivered)) := by
  have hopen : openTarget fs target o.appends =
      (opened fs₁ d o.appends, .ok ⟨d.place, d.kept o.appends⟩) :=
    openTarget_of_destination hopens.parents hopens.destination
  cases hcopy : Copy.file (opened fs₁ d o.appends) source o plan s.cancelAfter with
  | error f =>
      -- without a source nothing is put out, and the target stays as it was opened
      have hnothing : putOut s (opened fs₁ d o.appends) o source plan = [] := by rw [putOut, hcopy]
      rw [toFile, hnothing]
      simp only [hopens.distinct, hopens.planned, hopen, hcopy]
      exact congrArg (fun bytes => fs₁.put d.place (.file bytes)) (List.append_nil _).symm
  | ok c =>
      have hlines : putOut s (opened fs₁ d o.appends) o source plan = c.written := by
        rw [putOut, hcopy]
      rw [toFile] at hfails ⊢
      simp only [hopens.distinct, hopens.planned, hopen, hcopy] at hfails ⊢
      rw [hlines, opened, put_put]
      cases hfailure : c.failure with
      | none =>
          rw [resultOf, hfailure] at hfails
          cases hfails
      | some f => rw [deliveredBytes_of_fails hfailure]

end Transfer

namespace Run

open Transfer

variable {s : Surroundings} {r : Registry} {o : RunOptions} {fs fs₁ : FileSystem} {ctx : Context}
  {source target : Path} {plan : CopyPlan} {d : Destination}

theorem files_execute_of_fails {t : Task} (ht : Task.ofOptions r fs o = .ok t)
    (hfrom : t.source = .file source) (hto : t.target = .location (.file target))
    (hopens : Opens fs o source target plan fs₁ d) {f : Failure}
    (hfails : (execute s r o fs ctx).result = .error f) :
    (execute s r o fs ctx).files =
      fs₁.put d.place (.file (d.kept o.appends ++
        (Buffered.putLines (putOut s (opened fs₁ d o.appends) o source plan)).delivered)) := by
  have hoptions : t.options = o := (Task.ofOptions_eq_ok_iff.mp ht).2.2.2.2.2.2
  have htransfer : Transfer.ofTask s fs t = toFile s fs o source target := by
    simp only [Transfer.ofTask, hfrom, hto, hoptions]
  rw [execute_of_task ht, htransfer] at hfails ⊢
  rw [files_concluded]
  cases hresult : (toFile s fs o source target).result with
  | error f' => exact files_toFile_of_fails hopens hresult
  | ok stats =>
      rw [result_concluded_eq_ok_iff.mpr ⟨stats, hresult⟩] at hfails
      cases hfails

/-- What a file held before the run is what its target held when it was opened. -/
theorem node?_of_opens (hopens : Opens fs o source target plan fs₁ d) :
    fs.node? d.place = some (.file d.content) ∨ fs.node? d.place = none ∧ d.content = [] := by
  rcases node?_of_destination hopens.destination with hnode | ⟨hnode, hempty⟩
  · exact .inl (hopens.grown.node?_of_file hnode)
  · refine .inr ⟨?_, hempty⟩
    rcases hopens.grown.node d.place with hsame | ⟨-, hdirectory⟩
    · rw [← hsame, hnode]
    · rw [hnode] at hdirectory
      cases hdirectory

/-- A run that fails once its target is open leaves whole lines behind what the mode keeps exactly
when no line is torn. A torn line is the last one, and lacks its newline. -/
theorem whole_lines_iff {t : Task} (ht : Task.ofOptions r fs o = .ok t)
    (hfrom : t.source = .file source) (hto : t.target = .location (.file target))
    (hopens : Opens fs o source target plan fs₁ d) {f : Failure}
    (hfails : (execute s r o fs ctx).result = .error f) :
    ∃ lines reached,
      putOut s (opened fs₁ d o.appends) o source plan = lines ∧
      (fs.node? d.place = some (.file d.content) ∨ fs.node? d.place = none ∧ d.content = []) ∧
      (execute s r o fs ctx).files.readFile target = .ok (d.kept o.appends ++ reached) ∧
      ((∃ done, done <+: lines ∧ reached = Utf8.encode (Lines.unlines done)) ↔
        ¬Buffered.Torn lines) ∧
      (Buffered.Torn lines → ∃ done line rest, lines = done ++ line :: rest ∧ line ≠ "" ∧
        reached = Utf8.encode (Lines.unlines done) ++ Utf8.encode line) := by
  -- what goes out is settled by the sizes of the lines, whatever made the copy fail
  refine ⟨_, _, rfl, node?_of_opens hopens, ?_,
    Buffered.delivered_whole_iff newline_not_mem_of_mem_putOut, ?_⟩
  · rw [files_execute_of_fails ht hfrom hto hopens hfails, readFile,
      openToRead_of_find_file (find_put_destination hopens.destination _)]
  · rintro ⟨done, line, rest, hlines, hline, hparts, hrest⟩
    refine ⟨done, line, rest, hlines, hline, ?_⟩
    rw [hlines, Buffered.delivered_of_parts hparts hrest]

/-! ## A source with a bad end -/

/-- A source with one row and then a byte that is no text. -/
def badEnd (row : String) : Bytes :=
  Utf8.encode (Lines.unlines ["id", row]) ++ [0xFF]

/-- The header and the row are copied before the bad byte is come upon. -/
theorem lines_badEnd {row : String}
    (hrow : '\n' ∉ row.toList ∧ row.toList.getLast? ≠ some '\r') :
    ∃ f, Copy.lines (.between "in.csv" "out.csv" .fullRefresh) .fresh
      ⟨⟨"in.csv"⟩, Lines.ofBytes (badEnd row), none⟩ = ⟨["id", row], 1, some f⟩ := by
  obtain ⟨fault, hfault⟩ := Lines.exists_ofBytes_badByte
  have hid : '\n' ∉ "id".toList ∧ "id".toList.getLast? ≠ some '\r' := by decide +kernel
  have hboth : ∀ line ∈ ["id", row],
      '\n' ∉ line.toList ∧ line.toList.getLast? ≠ some '\r' := by
    intro line hline
    rcases List.mem_cons.mp hline with rfl | hline
    · exact hid
    · exact List.mem_singleton.mp hline ▸ hrow
  rw [badEnd, Lines.ofBytes_encode_unlines_append hboth, hfault]
  exact ⟨_, rfl⟩

/-- A run that is cut short behind a row. -/
structure IsCutShort (row : String) (o : RunOptions) (fs : FileSystem) (d : Destination)
    (t : Task) :
    Prop where
  task : Task.ofOptions .empty fs o = .ok t
  source : t.source = .file ⟨"in.csv"⟩
  target : t.target = .location (.file ⟨"out.csv"⟩)
  opens : Opens fs o ⟨"in.csv"⟩ ⟨"out.csv"⟩ .fresh fs d
  kept : d.kept o.appends = []
  putOut : putOut .quiet (opened fs d o.appends) o ⟨"in.csv"⟩ .fresh = ["id", row]
  fails : ∃ f, (execute .quiet .empty o fs []).result = .error f

/-- A full refresh from a source with a bad end is cut short. -/
theorem isCutShort_badEnd {row : String}
    (hrow : '\n' ∉ row.toList ∧ row.toList.getLast? ≠ some '\r') (before : Bytes) :
    ∃ d t, IsCutShort row (.between "in.csv" "out.csv" .fullRefresh) (twoFiles (badEnd row) before)
      d t := by
  obtain ⟨f, hcopied⟩ := lines_badEnd hrow
  have ht := @ofOptions_twoFiles (badEnd row) before .fullRefresh rfl
  have happends : (RunOptions.between "in.csv" "out.csv" .fullRefresh).appends = false := rfl
  generalize RunOptions.between "in.csv" "out.csv" .fullRefresh = o at hcopied ht happends ⊢
  generalize hfs : twoFiles (badEnd row) before = fs at ht ⊢
  have hsource : fs.find ⟨"in.csv"⟩ = .ok (["in.csv"], .file (badEnd row)) := by
    subst hfs
    exact find_source_twoFiles
  have hopens : Opens fs o ⟨"in.csv"⟩ ⟨"out.csv"⟩ .fresh fs ⟨["out.csv"], before⟩ := by
    subst hfs
    refine opens_twoFiles ?_
    rw [CopyPlan.forTarget, happends]
    rfl
  have hplace : ["in.csv"] ≠ ["out.csv"] := by decide +kernel
  have hcopy : Copy.file (opened fs ⟨["out.csv"], before⟩ o.appends) ⟨"in.csv"⟩ o .fresh none =
      .ok ⟨["id", row], 1, some f⟩ := by
    rw [opened, file_of_find (find_opened_of_ne hopens hsource hplace _), hcopied]
  refine ⟨_, _, ht, rfl, rfl, hopens, ?_, ?_, f, ?_⟩
  · rw [Destination.kept, happends]
    rfl
  · simp only [Transfer.putOut, Surroundings.quiet, hcopy]
  · have htransfer := toFile_of_opens (s := .quiet) hopens hsource hplace hcopied
    rw [execute_of_task ht]
    simp only [Transfer.ofTask, htransfer]
    rfl

theorem whole_lines_badEnd :
    ∃ reached,
      (execute .quiet .empty (.between "in.csv" "out.csv" .fullRefresh)
        (twoFiles (badEnd "1") (Utf8.encode "old\n")) []).files.readFile ⟨"out.csv"⟩ = .ok reached ∧
      ∃ done, done <+: ["id", "1"] ∧ reached = Utf8.encode (Lines.unlines done) := by
  have hone : '\n' ∉ "1".toList ∧ "1".toList.getLast? ≠ some '\r' := by decide +kernel
  obtain ⟨d, t, hcut⟩ := isCutShort_badEnd hone (Utf8.encode "old\n")
  obtain ⟨f, hfails⟩ := hcut.fails
  obtain ⟨lines, reached, hlines, -, hread, hwhole, -⟩ :=
    whole_lines_iff hcut.task hcut.source hcut.target hcut.opens hfails
  rw [hcut.putOut] at hlines
  subst hlines
  rw [hcut.kept, List.nil_append] at hread
  have hfits : (Utf8.encode (Lines.unlines ["id", "1"])).length ≤ Buffered.capacity := by
    decide +kernel
  exact ⟨reached, hread, hwhole.mpr (Buffered.not_torn_of_room hfits)⟩

/-- A row for which the buffer is too small goes out, and its newline does not. -/
theorem readFile_badEnd_of_large {row : String}
    (hrow : '\n' ∉ row.toList ∧ row.toList.getLast? ≠ some '\r')
    (hlarge : Buffered.capacity ≤ (Utf8.encode row).length) (before : Bytes) :
    (execute .quiet .empty (.between "in.csv" "out.csv" .fullRefresh) (twoFiles (badEnd row) before)
      []).files.readFile ⟨"out.csv"⟩ =
        .ok (Utf8.encode (Lines.unlines ["id"]) ++ Utf8.encode row) := by
  obtain ⟨d, t, hcut⟩ := isCutShort_badEnd hrow before
  obtain ⟨f, hfails⟩ := hcut.fails
  have hreached : (Buffered.putLines ["id", row]).delivered =
      Utf8.encode (Lines.unlines ["id"]) ++ Utf8.encode row :=
    @Buffered.delivered_of_parts ["id"] [] row (.inl hlarge) (by decide)
  rw [files_execute_of_fails hcut.task hcut.source hcut.target hcut.opens hfails, readFile,
    openToRead_of_find_file (find_put_destination hcut.opens.destination _), hcut.kept, hcut.putOut,
    List.nil_append, hreached]

/-- A row as large as the buffer. -/
def wideRow : String :=
  String.ofList (List.replicate Buffered.capacity 'x')

theorem toList_wideRow : wideRow.toList = List.replicate Buffered.capacity 'x' :=
  String.toList_ofList

theorem length_encode_wideRow : (Utf8.encode wideRow).length = Buffered.capacity := by
  have hx : (String.utf8EncodeChar 'x').length = 1 := by simp [String.utf8EncodeChar]
  rw [Utf8.encode, toList_wideRow, Utf8.encodeChars, List.length_flatMap, List.map_replicate, hx]
  simp

/-- A row as large as the buffer is left in the target without its newline. -/
theorem wide_row_torn :
    (∃ f, (execute .quiet .empty (.between "in.csv" "out.csv" .fullRefresh)
        (twoFiles (badEnd wideRow) []) []).result = .error f) ∧
      (execute .quiet .empty (.between "in.csv" "out.csv" .fullRefresh)
        (twoFiles (badEnd wideRow) []) []).files.readFile ⟨"out.csv"⟩ =
          .ok (Utf8.encode (Lines.unlines ["id"]) ++ Utf8.encode wideRow) ∧
      ∀ lines, Utf8.encode (Lines.unlines ["id"]) ++ Utf8.encode wideRow ≠
        Utf8.encode (Lines.unlines lines) := by
  have hnewline : '\n' ∉ wideRow.toList := by
    rw [toList_wideRow, List.mem_replicate]
    exact fun h => absurd h.2 (by decide)
  have hreturn : wideRow.toList.getLast? ≠ some '\r' := by
    intro h
    have hmem := List.mem_of_getLast? h
    rw [toList_wideRow, List.mem_replicate] at hmem
    exact absurd hmem.2 (by decide)
  have hne : wideRow ≠ "" := by
    intro h
    have hlength := length_encode_wideRow
    rw [Utf8.encode_eq_nil_iff.mpr h] at hlength
    cases hlength
  have hlarge : Buffered.capacity ≤ (Utf8.encode wideRow).length := by
    have hlength := length_encode_wideRow
    omega
  obtain ⟨d, t, hcut⟩ := isCutShort_badEnd ⟨hnewline, hreturn⟩ []
  exact ⟨hcut.fails, readFile_badEnd_of_large ⟨hnewline, hreturn⟩ hlarge [],
    Buffered.not_whole_of_parts hne hnewline⟩

end Run

end Haulage
