import LibeventHttpd.AcceptRequest
import LibeventHttpd.Library.Paths

/-! The files a request line can name, against the directory of the site. -/
namespace LibeventHttpd
open Paths

/-- The components that stay in a directory. -/
def isHere (c : List CChar) : Bool := c = [] ∨ c = cstr "."

def dotDot : List CChar := cstr ".."

def components (path : List CChar) : List (List CChar) := path.splitOn (ch '/')

/-- An absolute path without empty, `.` and `..` components. -/
def resolved (path : List CChar) : List (List CChar) :=
  resolve isHere dotDot [] (components path)

/-- The path is the root of the site or lies below it. -/
def Inside (path : List CChar) : Prop := resolved root <+: resolved path

instance (path : List CChar) : Decidable (Inside path) := inferInstanceAs (Decidable (_ <+: _))

/-- The paths that `accept_request` uses: one it looks up, and one that is served or executed. -/
def Uses (stat : Stat) (req : Request) (path : List CChar) : Prop :=
  path = rootPath req.url ∧ path.length < size/2 ∨ ∃ cgi, locate stat req = some (some (path,cgi))

/-- Whatever is used for a request line is inside the site. -/
def Confined (stat : Stat) (line : List CChar) : Prop :=
  ∀ req, parseRequest line = some (some req) → ∀ path, Uses stat req path → Inside path

/-- Followed from the root of the site, the target ends there or below. -/
def TargetStays (target : List CChar) : Prop :=
  Stays isHere dotDot (resolved root) (components target)

instance (target : List CChar) : Decidable (TargetStays target) :=
  inferInstanceAs (Decidable (Stays _ _ _ _))

/-- A target from `/` on stays inside, also with the default page appended to the name of a
directory. Any other target stands for the root, which must be no directory. -/
def TargetConfined (stat : Stat) (req : Request) : Prop :=
  if req.url.head? = some (ch '/') then
    (rootPath req.url).length < size/2 → TargetStays req.url ∧
      ∀ mode, stat (rootPath req.url) = some mode → isDir mode = true →
        (rootPath req.url ++ dfPath).length < size/2 → TargetStays (req.url ++ dfPath)
  else ∀ mode, stat root = some mode → isDir mode = false

/-- The path in the record, or the one that is executed, is used for the request line. -/
theorem dispatch_uses {stat : Stat} {env : Env} {fd : ℕ} {sock : Stream} {d : Dispatch}
    (h : dispatch stat env fd sock = some d) {path : List CChar}
    (hpath : match d with
      | .done data _ => data.path = some path
      | .exec call => call.path = path) :
    ∃ req, parseRequest (text (getLine size sock).1) = some (some req) ∧ Uses stat req path := by
  cases d with
  | done data rest =>
    obtain ⟨-,rfl⟩ | ⟨-,⟨-,rfl⟩ | ⟨req,hparse,⟨-,rfl⟩ | ⟨path',hloc,rfl⟩⟩⟩ := dispatch_done h
    · cases hpath
    · cases hpath
    · cases hpath
    · obtain rfl : path' = path := Option.some.inj hpath
      exact ⟨req,hparse,.inr ⟨false,hloc⟩⟩
  | exec call =>
    obtain ⟨-,req,path',len,hparse,hloc,-,rfl⟩ := dispatch_exec_iff.mp h
    obtain rfl : path' = path := hpath
    exact ⟨req,hparse,.inr ⟨true,hloc⟩⟩

/-- A target behind the root. -/
theorem inside_root_append {target : List CChar} (h : target.head? = some (ch '/')) :
    Inside (root ++ target) ↔ TargetStays target := by
  obtain ⟨t,rfl⟩ := List.head?_eq_some_iff.mp h
  have hroot : components (root ++ ch '/'::t) = components root ++ components t :=
    List.splitOn_append_cons_self _ _
  have htarget : components (ch '/'::t) = []::components t := List.splitOn_append_cons_self [] t
  have hhere : resolve isHere dotDot (resolved root) ([]::components t) =
      resolve isHere dotDot (resolved root) (components t) := rfl
  rw [TargetStays, ← prefix_resolve_iff, htarget, hhere, Inside]
  rw [resolved, resolved, hroot, resolve_append]

theorem rootPath_slash {url : List CChar} (h : url.head? = some (ch '/')) :
    rootPath url = root ++ url := if_pos h

theorem rootPath_other {url : List CChar} (h : url.head? ≠ some (ch '/')) :
    rootPath url = root := if_neg h

/-- The path is looked up, and the default page is found behind the name of a directory. -/
theorem uses_iff {stat : Stat} {req : Request} {path : List CChar} :
    Uses stat req path ↔ (rootPath req.url).length < size/2 ∧ (path = rootPath req.url ∨
      ∃ mode, stat (rootPath req.url) = some mode ∧ isDir mode = true ∧
        (rootPath req.url ++ dfPath).length < size/2 ∧ path = rootPath req.url ++ dfPath) := by
  constructor
  · rintro (⟨rfl,hfit⟩ | ⟨cgi,hloc⟩)
    · exact ⟨hfit,.inl rfl⟩
    · obtain ⟨hfit,mode,hs,⟨hd,hlong,rfl,-⟩ | ⟨-,rfl,-⟩⟩ := locate_iff.mp hloc
      · exact ⟨hfit,.inr ⟨mode,hs,hd,hlong,rfl⟩⟩
      · exact ⟨hfit,.inl rfl⟩
  · rintro ⟨hfit,rfl | ⟨mode,hs,hd,hlong,rfl⟩⟩
    · exact .inl ⟨rfl,hfit⟩
    · exact .inr ⟨req.cgi,locate_iff.mpr ⟨hfit,mode,hs,.inl ⟨hd,hlong,rfl,rfl⟩⟩⟩

/-- The paths of one request are inside exactly if its target keeps to the site. -/
theorem uses_inside_iff (stat : Stat) (req : Request) :
    (∀ path, Uses stat req path → Inside path) ↔ TargetConfined stat req := by
  unfold TargetConfined
  simp only [uses_iff]
  split_ifs with hslash
  · have hpage : (req.url ++ dfPath).head? = some (ch '/') := by
      obtain ⟨t,ht⟩ := List.head?_eq_some_iff.mp hslash
      rw [ht]
      rfl
    rw [rootPath_slash hslash, ← inside_root_append hslash, ← inside_root_append hpage,
      ← List.append_assoc]
    constructor
    · intro h hfit
      refine ⟨h _ ⟨hfit,.inl rfl⟩,?_⟩
      intro mode hs hd hlong
      exact h _ ⟨hfit,.inr ⟨mode,hs,hd,hlong,rfl⟩⟩
    · rintro h path ⟨hfit,rfl | ⟨mode,hs,hd,hlong,rfl⟩⟩
      · exact (h hfit).1
      · exact (h hfit).2 mode hs hd hlong
  · have hfit : root.length < size/2 := by decide
    have hlong : (root ++ dfPath).length < size/2 := by decide
    have hin : Inside root := List.prefix_refl _
    -- the name of the root runs into that of the page
    have hout : ¬Inside (root ++ dfPath) := by decide
    rw [rootPath_other hslash]
    constructor
    · intro h mode hs
      apply Bool.eq_false_of_not_eq_true
      intro hd
      exact hout (h _ ⟨hfit,.inr ⟨mode,hs,hd,hlong,rfl⟩⟩)
    · rintro h path ⟨-,rfl | ⟨mode,hs,hd,-,-⟩⟩
      · exact hin
      · rw [h mode hs] at hd
        cases hd

/-- The files that a request line names are inside the site exactly if the target it carries keeps
to it. -/
theorem confined_iff (stat : Stat) (line : List CChar) :
    Confined stat line ↔
      ∀ req, parseRequest line = some (some req) → TargetConfined stat req := by
  unfold Confined
  simp only [uses_inside_iff]

/-- Two dots in the target: the file is outside. -/
theorem not_confined_dotdot :
    ¬Confined (fun _ => some 0o100644) (cstr "GET /../x HTTP/1.0\n") := by
  intro h
  have hin := h ⟨cstr "GET",cstr "/../x",[],false⟩ rfl _ (.inl ⟨rfl,by decide⟩)
  exact absurd hin (by decide)

end LibeventHttpd
