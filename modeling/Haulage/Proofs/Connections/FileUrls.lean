import Haulage.Connections.Location
import Haulage.Proofs.Text.Words

/-!
# URLs of files

A location is local when its text starts with `file://`, or when it is no URL. Letters of either
case make the scheme of a URL, though, and it needs no slashes behind its colon. So there are texts
that do not start with `file://` and are URLs of the scheme `file` all the same: such a location has
the connector type of a file and is remote. It cannot be reached, for the scheme has no port.

- `Url.read_file_iff`: which texts are URLs of the scheme `file`.
- `read_eq_remote_iff`: which texts name a remote location.
- `connectorType_read_iff`: which texts name a location of the type of a file.
- `probe_of_isFile`: what becomes of an attempt to reach one that is remote.
-/

set_option autoImplicit false

namespace Haulage

open Haulage.Text

/-! ## The scheme of a URL -/

namespace Url

variable {s rest word : List Char} {scheme : String} {url : Url}

theorem isAlpha_of_toLower {c : Char} (h : c.toLower.isAlpha = true) : c.isAlpha = true := by
  rcases toLower_cases c with ⟨-, heq⟩ | ⟨hlo, hhi, -⟩
  · rwa [heq] at h
  · have hupper : c.isUpper = true := (isUpper_iff c).mpr ⟨hlo, hhi⟩
    change (c.isUpper || c.isLower) = true
    rw [hupper, Bool.true_or]

/-- A word of letters before a colon is a scheme. -/
theorem readScheme?_of_letters (hne : word ≠ [])
    (hletters : ∀ c ∈ word.map Char.toLower, c.isAlpha = true) (rest : List Char) :
    readScheme? (word ++ ':' :: rest) = some (String.ofList (word.map Char.toLower), rest) := by
  have hletter : ∀ c ∈ word, c.isAlpha = true := fun c hc =>
    isAlpha_of_toLower (hletters _ (List.mem_map_of_mem hc))
  have hword : ∀ c ∈ word, isSchemeChar c = true := by
    intro c hc
    rw [isSchemeChar, Char.isAlphanum, hletter c hc]
    rfl
  obtain ⟨first, more, rfl⟩ := List.exists_cons_of_ne_nil hne
  have hfirst : first.isAlpha = true := hletter first List.mem_cons_self
  have hcolon : isSchemeChar ':' = false := rfl
  rw [readScheme?, List.dropWhile_append_of_pos hword, List.takeWhile_append_of_pos hword]
  simp [hcolon, hfirst]

theorem eq_of_readScheme? (h : readScheme? s = some (scheme, rest)) :
    ∃ word, s = word ++ ':' :: rest ∧ scheme = String.ofList (word.map Char.toLower) := by
  rw [readScheme?] at h
  split at h
  · rename_i behind hbehind
    split at h
    · obtain ⟨rfl, rfl⟩ := Prod.mk.inj (Option.some.inj h)
      exact ⟨_, by rw [← hbehind, List.takeWhile_append_dropWhile], rfl⟩
    · cases h
  · cases h

/-- A URL of the scheme `file`, with a host at most and no port. -/
structure IsFile (url : Url) : Prop where
  scheme : url.scheme = "file"
  authority : ∃ host, url.authority = some ⟨none, host, none⟩

theorem isFile_of_readFile (h : readFile s = .ok url) : url.IsFile := by
  have hfinish : ∀ host path after, (finish "file" (some ⟨none, host, none⟩) path after).IsFile :=
    fun host path after => ⟨rfl, host, rfl⟩
  unfold readFile at h
  dsimp only at h
  split at h
  · rename_i first second more
    by_cases hslashes : (isSlash true first && isSlash true second) = true
    · rw [if_pos hslashes] at h
      generalize hname : List.takeWhile (fun c => !endsAuthority true c) more = name at h
      by_cases hdrive : isDrive name = true
      · rw [if_pos hdrive] at h
        exact Except.ok.inj h ▸ hfinish _ _ _
      · rw [if_neg hdrive] at h
        by_cases hempty : name.isEmpty = true
        · rw [if_pos hempty] at h
          exact Except.ok.inj h ▸ hfinish _ _ _
        · rw [if_neg hempty] at h
          cases hhost : readSpecialHost name with
          | error flaw =>
              rw [hhost] at h
              cases h
          | ok host =>
              rw [hhost] at h
              exact Except.ok.inj h ▸ hfinish _ _ _
    · rw [if_neg hslashes] at h
      exact Except.ok.inj h ▸ hfinish _ _ _
  · exact Except.ok.inj h ▸ hfinish _ _ _

theorem scheme_of_readWithAuthority (h : readWithAuthority scheme s = .ok url) :
    url.scheme = scheme := by
  rw [readWithAuthority] at h
  cases hread : readAuthority scheme s with
  | error flaw =>
      rw [hread] at h
      cases h
  | ok found =>
      rw [hread] at h
      rw [← Except.ok.inj h]
      rfl

/-- A text is a URL of the scheme `file` when that word, in letters of either case, stands before
its first colon, and what follows can be read. -/
theorem read_file_iff {raw : String} :
    (read raw = .ok url ∧ url.scheme = "file") ↔
      ∃ word rest, significant raw = word ++ ':' :: rest ∧ word.map Char.toLower = "file".toList ∧
        readFile rest = .ok url := by
  constructor
  · rintro ⟨hread, hscheme⟩
    rw [read] at hread
    split at hread
    · cases hread
    · rename_i scheme rest hsplit
      obtain ⟨word, hword, hname⟩ := eq_of_readScheme? hsplit
      split at hread
      · rename_i hfile
        refine ⟨word, rest, hword, ?_, hread⟩
        rw [← hfile, hname, String.toList_ofList]
      · rename_i hother
        -- every other scheme stands in the URL as it was read
        have hsame : url.scheme = scheme := by
          split at hread
          · exact scheme_of_readWithAuthority hread
          · split at hread
            · exact scheme_of_readWithAuthority hread
            · rw [← Except.ok.inj hread]
              rfl
        exact absurd (hsame ▸ hscheme) hother
  · rintro ⟨word, rest, hword, hname, hread⟩
    have hne : word ≠ [] := by
      rintro rfl
      cases hname
    have hletters : ∀ c ∈ word.map Char.toLower, c.isAlpha = true := by
      rw [hname]
      exact List.all_eq_true.mp (by decide)
    have hsplit : readScheme? (significant raw) = some ("file", rest) := by
      rw [hword, readScheme?_of_letters hne hletters, hname, String.ofList_toList]
    refine ⟨?_, (isFile_of_readFile hread).scheme⟩
    rw [read, hsplit]
    exact hread

end Url

/-! ## Locations of the type of a file -/

namespace Location

variable {raw : String} {url : Url} {net : Network}

/-- A location on the local file system. -/
def IsLocal (l : Location) : Prop :=
  ∃ path, l = .file path

/-- A text that is a URL of the scheme `file` although it does not start with `file://`. -/
structure NamesFileUrl (raw : String) : Prop where
  notLed : ¬ "file://".toList <+: (trim raw).toList
  url : ∃ word rest url, Url.significant (trim raw) = word ++ ':' :: rest ∧
    word.map Char.toLower = "file".toList ∧ Url.readFile rest = .ok url

theorem dropLeadText?_eq_none_iff {lead s : String} :
    dropLeadText? lead s = none ↔ ¬ lead.toList <+: s.toList := by
  rw [dropLeadText?, Option.map_eq_none_iff, ← isSome_dropLead?_iff, Bool.not_eq_true,
    Option.isSome_eq_false_iff, Option.isNone_iff_eq_none]

/-- A location is remote when its text does not start with `file://` and is a URL whose scheme is
no single letter. -/
theorem read_eq_remote_iff : read raw = .remote url ↔
    ¬ "file://".toList <+: (trim raw).toList ∧ Url.read (trim raw) = .ok url ∧
      1 < url.scheme.utf8ByteSize := by
  rw [← dropLeadText?_eq_none_iff, read]
  constructor
  · intro h
    split at h
    · cases h
    · rename_i hnone
      split at h
      · rename_i found hurl
        split at h
        · rename_i hlong
          obtain rfl : found = url := Location.remote.inj h
          exact ⟨hnone, hurl, hlong⟩
        · cases h
      · cases h
  · rintro ⟨hnone, hurl, hlong⟩
    simp only [hnone, hurl, if_pos hlong]

/-- Such a text names a remote location. -/
theorem namesFileUrl_iff : NamesFileUrl raw ↔ ∃ url, read raw = .remote url ∧ url.IsFile := by
  constructor
  · rintro ⟨hlead, word, rest, url, hword, hname, hread⟩
    obtain ⟨hurl, hscheme⟩ := Url.read_file_iff.mpr ⟨word, rest, hword, hname, hread⟩
    refine ⟨url, read_eq_remote_iff.mpr ⟨hlead, hurl, ?_⟩, Url.isFile_of_readFile hread⟩
    rw [hscheme]
    decide
  · rintro ⟨url, hread, hfile⟩
    obtain ⟨hlead, hurl, -⟩ := read_eq_remote_iff.mp hread
    obtain ⟨word, rest, hword, hname, hrest⟩ := Url.read_file_iff.mp ⟨hurl, hfile.scheme⟩
    exact ⟨hlead, word, rest, url, hword, hname, hrest⟩

theorem connectorType_remote_eq_file_iff :
    (remote url).connectorType = "file" ↔ url.scheme = "file" := by
  rw [connectorType]
  split
  · rename_i h
    rw [h]
    decide
  · split
    · rename_i h
      rw [h]
      decide
    · rfl

/-- A remote location of the type of a file is a file URL when it was read from a text. -/
theorem isFile_of_read (hread : read raw = .remote url)
    (htype : (remote url).connectorType = "file") :
    url.IsFile := by
  rw [connectorType_remote_eq_file_iff] at htype
  obtain ⟨-, hurl, -⟩ := read_eq_remote_iff.mp hread
  obtain ⟨word, rest, -, -, hrest⟩ := Url.read_file_iff.mp ⟨hurl, htype⟩
  exact Url.isFile_of_readFile hrest

/-- A text names a location of the type of a file when it names a local one, or a file URL without
the lead of local ones. -/
theorem connectorType_read_iff :
    (read raw).connectorType = "file" ↔ (read raw).IsLocal ∨ NamesFileUrl raw := by
  rw [namesFileUrl_iff]
  cases hread : read raw with
  | file path => exact ⟨fun _ => .inl ⟨path, rfl⟩, fun _ => rfl⟩
  | remote url =>
      constructor
      · intro htype
        exact .inr ⟨url, rfl, isFile_of_read hread htype⟩
      · rintro (⟨path, hpath⟩ | ⟨found, hfound, hfile⟩)
        · cases hpath
        · rw [connectorType_remote_eq_file_iff, Location.remote.inj hfound]
          exact hfile.scheme

/-- A file URL has no port to connect to, and perhaps no host either. -/
theorem probe_of_isFile (h : url.IsFile) :
    probe net url = failWith (.noHost "file") ∨ probe net url = failWith (.noPort "file") := by
  obtain ⟨hscheme, host, hauthority⟩ := h
  have hport : url.port?.or (databasePort? url.scheme) = none := by
    rw [Url.port?, hauthority, hscheme]
    rfl
  rw [probe]
  split
  · exact .inl (by rw [hscheme])
  · rw [hport]
    exact .inr (by rw [hscheme])

end Location

end Haulage
