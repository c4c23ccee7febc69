import Splice.HttpServer
import Splice.Lib.PathWalk

/-!
# Splice.DocRoot

Which file a request can reach.  `openName` is the name that `handle_request` gives to the
file system, as a function of the URI; the reply depends on no other file
(`consults_iff`), and the walk along that name never leaves the directory that is served.
-/

namespace Splice

open PathWalk

namespace HttpServer

/-- The path that a decoded URI names: a directory stands for its index. -/
def withIndex (path : List UInt8) : List UInt8 :=
  if path.getLast? = some '/'.toUInt8 then path ++ chars "index.html" else path

/-- The path of the file that is served for a URI; none if the request is bad. -/
def servedPath (uri : List UInt8) : Option (List UInt8) :=
  match urlDecode uri with
  | none => none
  | some requestPath =>
      if requestPath.head? ≠ some '/'.toUInt8 ∨ contains (chars "..") requestPath then none
      else some (withIndex requestPath)

/-- The name that is given to the file system. -/
def openName (docRoot uri : List UInt8) : Option (List UInt8) :=
  (servedPath uri).map fun path => cString (docRoot ++ path)

/-- The reply depends on the file with this name. -/
def Consults (docRoot : List UInt8) (req : Request) (name : List UInt8) : Prop :=
  ∃ open₁ open₂ : List UInt8 → Option (List UInt8),
    (∀ other, other ≠ name → open₁ other = open₂ other) ∧
    handleRequest ⟨docRoot, open₁⟩ req ≠ handleRequest ⟨docRoot, open₂⟩ req

/-- A request is served by the path that its URI gives, if it gives one. -/
theorem handleRequest_eq (site : Site) (req : Request) :
    handleRequest site req =
      match servedPath req.uri with
      | none => .stockReply .badRequest
      | some path =>
          match site.openFile (cString (site.docRoot ++ path)) with
          | none => .stockReply .notFound
          | some content =>
              { status := .ok
                headers := Reply.contentHeaders content (extensionToType (extensionOf path))
                content := content } := by
  unfold handleRequest servedPath
  cases urlDecode req.uri with
  | none => rfl
  | some requestPath =>
      dsimp only
      split
      · rfl
      · rfl

/-- The one file that a reply depends on is the one with the name given. -/
theorem consults_iff {docRoot name : List UInt8} {req : Request} :
    Consults docRoot req name ↔ openName docRoot req.uri = some name := by
  unfold Consults openName
  simp only [handleRequest_eq]
  cases hpath : servedPath req.uri with
  | none => simp
  | some path =>
      constructor
      · rintro ⟨open₁, open₂, hagree, hreply⟩
        by_contra hname
        simp only [Option.map_some, Option.some.injEq] at hname
        simp [hagree _ hname] at hreply
      · intro hname
        obtain rfl := Option.some.inj hname
        refine ⟨fun _ => none,
          fun other => if other = cString (docRoot ++ path) then some [] else none,
          fun other hother => by simp [hother], ?_⟩
        simp [Reply.stockReply]

/-! ## What is served -/

/-- A path that is served is absolute, without two dots, and with an index where it ends in
a slash. -/
theorem servedPath_eq_some {uri path : List UInt8} (h : servedPath uri = some path) :
    ∃ decoded, urlDecode uri = some decoded ∧ decoded.head? = some '/'.toUInt8 ∧
      contains (chars "..") decoded = false ∧ path = withIndex decoded := by
  unfold servedPath at h
  cases hdecode : urlDecode uri with
  | none => simp [hdecode] at h
  | some decoded =>
      simp only [hdecode] at h
      split at h
      · cases h
      · next hgood =>
          obtain ⟨hslash, hdots⟩ := not_or.mp hgood
          exact ⟨decoded, rfl, by simpa using hslash, by simpa using hdots,
            (Option.some.inj h).symm⟩

/-- An index brings no new component that goes up. -/
theorem not_infix_withIndex {decoded : List UInt8} (h : contains (chars "..") decoded = false) :
    ¬ chars ".." <:+: withIndex decoded := by
  have hdecoded : ¬ chars ".." <:+: decoded := by
    rw [← contains_iff (by decide)]
    simp [h]
  unfold withIndex
  split
  · next hlast =>
      obtain ⟨dir, rfl⟩ := List.getLast?_eq_some_iff.mp hlast
      rw [List.append_assoc, List.singleton_append]
      intro hinfix
      rcases infix_append_sep (by decide) hinfix with hdir | hindex
      · exact hdecoded (hdir.trans (List.prefix_append _ _).isInfix)
      · exact absurd ((contains_iff (by decide)).mpr hindex) (by decide)
  · exact hdecoded

/-- A root without a null character stands whole in front of the path opened. -/
theorem cString_append {docRoot : List UInt8} (hzero : (0 : UInt8) ∉ docRoot)
    (path : List UInt8) : cString (docRoot ++ path) = docRoot ++ cString path := by
  have hkeep : ∀ b ∈ docRoot, decide (b ≠ 0) = true := fun b hb => by
    simpa using ne_of_mem_of_not_mem hb hzero
  rw [cString, cString, List.takeWhile_append_of_pos hkeep]

theorem chars_dots : chars ".." = ['.'.toUInt8, '.'.toUInt8] := by decide

/-- The path that is opened begins with a slash. -/
theorem exists_cString_withIndex (rest : List UInt8) :
    ∃ text, cString (withIndex ('/'.toUInt8 :: rest)) = '/'.toUInt8 :: text := by
  have hslash : ∀ more, ∃ text, cString ('/'.toUInt8 :: more) = '/'.toUInt8 :: text :=
    fun more => ⟨cString more, List.takeWhile_cons_of_pos (by decide)⟩
  unfold withIndex
  split
  · exact hslash _
  · exact hslash rest

/-- **Served files stay under the document root.** -/
theorem consults_under_docRoot (docRoot : List UInt8) (hzero : (0 : UInt8) ∉ docRoot)
    (req : Request) (name : List UInt8) (hconsults : Consults docRoot req name) :
    ∃ decoded text, urlDecode req.uri = some decoded ∧ name = docRoot ++ text ∧
      text.head? = some '/'.toUInt8 ∧ text <+: withIndex decoded ∧
      chars ".." ∉ components '/'.toUInt8 text ∧
      Confined '/'.toUInt8 '.'.toUInt8 docRoot name := by
  obtain ⟨path, hpath, hname⟩ := Option.map_eq_some_iff.mp (consults_iff.mp hconsults)
  obtain ⟨decoded, hdecode, hslash, hdots, rfl⟩ := servedPath_eq_some hpath
  rw [cString_append hzero] at hname
  obtain ⟨rest, rfl⟩ := List.head?_eq_some_iff.mp hslash
  obtain ⟨text, htext⟩ := exists_cString_withIndex rest
  have hstart : cString (withIndex ('/'.toUInt8 :: rest)) <+: withIndex ('/'.toUInt8 :: rest) :=
    List.takeWhile_prefix _
  have hnone : chars ".." ∉ components '/'.toUInt8 (cString (withIndex ('/'.toUInt8 :: rest))) :=
    fun hmem => not_infix_withIndex hdots ((infix_of_mem_components hmem).trans hstart.isInfix)
  refine ⟨_, _, hdecode, hname.symm, by simp [htext], hstart, hnone, ?_⟩
  rw [← hname, htext]
  rw [htext] at hnone
  refine confined_of_not_mem fun hmem => hnone ?_
  rw [← List.nil_append ('/'.toUInt8 :: text), components_append_sep, chars_dots]
  exact List.mem_append_right _ hmem

/-- A request for a directory, with an escape in it. -/
theorem consults_under_docRoot_www : ∃ decoded text,
    urlDecode (chars "/%61/") = some decoded ∧ chars "/www/a/index.html" = chars "/www" ++ text ∧
      text.head? = some '/'.toUInt8 ∧ text <+: withIndex decoded ∧
      chars ".." ∉ components '/'.toUInt8 text ∧
      Confined '/'.toUInt8 '.'.toUInt8 (chars "/www") (chars "/www/a/index.html") := by
  have hopen : openName (chars "/www") (chars "/%61/") = some (chars "/www/a/index.html") := by
    decide +kernel
  exact consults_under_docRoot (chars "/www") (by decide) { Request.new with uri := chars "/%61/" }
    (chars "/www/a/index.html") (consults_iff.mpr hopen)

end HttpServer

end Splice
