import SkPqc.Model.LiboqsPath
import SkPqc.Runs.Objects

/-!
# The search for liboqs, over many calls

Every import of the backend searches again, on a machine that may have changed. The search latches: the first call that
finds a library sets the install path, which is never empty, and a set path ends every later call.
-/

namespace SkPqc
namespace Pqkem

open Wire Runs

/-! ### One search -/

theorem PosixPath.toStr_ne_nil (path : PosixPath) : path.toStr ≠ [] := by
  obtain ⟨root, parts, hparts⟩ := path
  unfold toStr
  split
  · exact List.cons_ne_nil _ _
  · rename_i hsome
    intro h
    obtain ⟨hroot, hjoined⟩ := List.append_eq_nil_iff.mp h
    cases parts with
    | nil => exact hsome ⟨hroot, rfl⟩
    | cons part parts =>
      apply hparts part List.mem_cons_self
      cases parts with
      | nil => rwa [List.intercalate_singleton] at hjoined
      | cons => exact (List.append_eq_nil_iff.mp hjoined).1

/-- The first prefix that holds a library, of those that the call looks at. -/
def Finds (host : Host) (env : Environ) (install : PosixPath) : Prop :=
  ∃ before rest, candidates host env = .ok (before ++ install :: rest) ∧
    (∀ other ∈ before, holdsLiboqs host other = .ok false) ∧ holdsLiboqs host install = .ok true

theorem firstHolding_eq_some {host : Host} {installs : List PosixPath} {install : PosixPath} :
    firstHolding host installs = .ok (some install) ↔ ∃ before rest, installs = before ++ install :: rest ∧
      (∀ other ∈ before, holdsLiboqs host other = .ok false) ∧ holdsLiboqs host install = .ok true := by
  induction installs with
  | nil =>
    constructor
    · intro h
      cases h
    · rintro ⟨before, rest, hsplit, -⟩
      exact absurd hsplit (by simp)
  | cons first installs ih =>
    rw [firstHolding, bind_eq_ok]
    constructor
    · rintro ⟨holds, hholds, h⟩
      cases holds with
      | true =>
        cases h
        exact ⟨[], installs, rfl, by simp, hholds⟩
      | false =>
        obtain ⟨before, rest, rfl, hbefore, hinstall⟩ := ih.mp h
        exact ⟨first :: before, rest, rfl, List.forall_mem_cons.mpr ⟨hholds, hbefore⟩, hinstall⟩
    · rintro ⟨before, rest, hsplit, hbefore, hinstall⟩
      cases before with
      | nil =>
        obtain ⟨rfl, -⟩ := List.cons.inj hsplit
        exact ⟨true, hinstall, rfl⟩
      | cons other before =>
        obtain ⟨rfl, hrest⟩ := List.cons.inj hsplit
        obtain ⟨hother, hbefore⟩ := List.forall_mem_cons.mp hbefore
        exact ⟨false, hother, ih.mpr ⟨before, rest, hrest, hbefore, hinstall⟩⟩

theorem search_eq_some {host : Host} {env : Environ} {install : PosixPath} :
    (do firstHolding host (← candidates host env)) = .ok (some install) ↔ Finds host env install := by
  rw [bind_eq_ok, Finds]
  constructor
  · rintro ⟨installs, hinstalls, hfirst⟩
    obtain ⟨before, rest, rfl, hrest⟩ := firstHolding_eq_some.mp hfirst
    exact ⟨before, rest, hinstalls, hrest⟩
  · rintro ⟨before, rest, hinstalls, hrest⟩
    exact ⟨_, hinstalls, firstHolding_eq_some.mpr ⟨before, rest, rfl, hrest⟩⟩

/-- `OQS_INSTALL_PATH` is set, and not to the empty text. -/
def Environ.Settled (env : Environ) : Prop := env.oqsInstallPath.getD [] ≠ []

theorem ensureLiboqsPath_of_settled {host : Host} {env : Environ} (h : env.Settled) :
    ensureLiboqsPath host env = (.ok (), env) :=
  if_pos h

/-- A call without the variable set exports the prefix that it finds, and changes nothing if it finds none. -/
theorem ensureLiboqsPath_cases {env : Environ} (h : ¬env.Settled) (host : Host) :
    (∃ install, Finds host env install ∧ ensureLiboqsPath host env = (.ok (), env.export install)) ∨
      (∀ install, ¬Finds host env install) ∧ (ensureLiboqsPath host env).2 = env := by
  have hunset : ¬env.oqsInstallPath.getD [] ≠ [] := h
  rw [ensureLiboqsPath, if_neg hunset]
  cases hsearch : (do firstHolding host (← candidates host env)) with
  | error e =>
    refine .inr ⟨fun install hfinds => ?_, rfl⟩
    cases hsearch.symm.trans (search_eq_some.mpr hfinds)
  | ok found =>
    cases found with
    | none =>
      refine .inr ⟨fun install hfinds => ?_, rfl⟩
      cases hsearch.symm.trans (search_eq_some.mpr hfinds)
    | some install => exact .inl ⟨install, search_eq_some.mp hsearch, rfl⟩

theorem settled_export (env : Environ) (install : PosixPath) : (env.export install).Settled := install.toStr_ne_nil

/-! ### The library path -/

/-- The directories in `LD_LIBRARY_PATH`. -/
def Environ.searchPath (env : Environ) : List Str :=
  let existing := env.ldLibraryPath.getD []
  if existing = [] then [] else split pathsep existing

/-- The library's directory goes to the front of the others, unless it is among them. -/
theorem searchPath_export (env : Environ) {install : PosixPath} (hsep : pathsep ∉ (libdir install).toStr) :
    (env.export install).searchPath = if (libdir install).toStr ∈ env.searchPath then env.searchPath
      else (libdir install).toStr :: env.searchPath := by
  have hdir := (libdir install).toStr_ne_nil
  simp only [Environ.export, Environ.searchPath]
  by_cases hempty : env.ldLibraryPath.getD [] = []
  · have hnil : split pathsep [] = [[]] := rfl
    have hnot : (libdir install).toStr ∉ split pathsep [] := by
      rw [hnil, List.mem_singleton]
      exact hdir
    simp only [hempty, if_neg hnot, if_true, Option.getD_some, if_neg hdir, List.not_mem_nil, if_false]
    exact List.splitOn_eq_singleton hsep
  · by_cases hmem : (libdir install).toStr ∈ split pathsep (env.ldLibraryPath.getD [])
    · simp only [if_pos hmem, if_neg hempty]
    · have hlong : (libdir install).toStr ++ [pathsep] ++ env.ldLibraryPath.getD [] ≠ [] := by simp
      simp only [if_neg hmem, if_neg hempty, Option.getD_some, if_neg hlong]
      rw [List.append_assoc, List.singleton_append]
      exact List.splitOn_append_cons_self_of_not_mem hsep _

/-! ### Every run -/

/-- Over any calls, whatever each of them finds on its machine, the variables change at most once: by the first call
that finds a library, to the first prefix that holds one, whose directory then stands in the library path in front of
what was there. A path that is set is never changed, and once a call has set it no other call changes anything. -/
theorem ensureLiboqsPath_runs (env : Environ) (hosts : List Host) :
    (env.Settled → after (fun env host => ensureLiboqsPath host env) env hosts = env) ∧
      (¬env.Settled →
        ((∀ host ∈ hosts, ∀ install, ¬Finds host env install) ∧
          after (fun env host => ensureLiboqsPath host env) env hosts = env) ∨
        ∃ before host rest install, hosts = before ++ host :: rest ∧
          (∀ earlier ∈ before, ∀ other, ¬Finds earlier env other) ∧ Finds host env install ∧
          after (fun env host => ensureLiboqsPath host env) env hosts = env.export install) ∧
      ∀ install, (env.export install).Settled ∧ (pathsep ∉ (libdir install).toStr →
        (env.export install).searchPath = if (libdir install).toStr ∈ env.searchPath then env.searchPath
          else (libdir install).toStr :: env.searchPath) := by
  have hstays : ∀ (env : Environ) (host : Host), env.Settled → (ensureLiboqsPath host env).2 = env := by
    intro env host h
    rw [ensureLiboqsPath_of_settled h]
  have hmoves : ∀ (env : Environ) (host : Host),
      (ensureLiboqsPath host env).2 = env ∨ (ensureLiboqsPath host env).2.Settled := by
    intro env host
    by_cases h : env.Settled
    · exact .inl (hstays env host h)
    · rcases ensureLiboqsPath_cases h host with ⟨install, -, hexport⟩ | ⟨-, hsame⟩
      · rw [hexport]
        exact .inr (settled_export env install)
      · exact .inl hsame
  refine ⟨fun h => ?_, fun h => ?_, fun install => ⟨settled_export env install, searchPath_export env⟩⟩
  · exact after_inv _ (I := fun env' => env' = env) (fun env' host h' => by rw [h', hstays env host h]) rfl hosts
  · -- a call that changes nothing has found nothing
    have hnothing : ∀ host, (ensureLiboqsPath host env).2 = env → ∀ install, ¬Finds host env install := by
      intro host hsame
      rcases ensureLiboqsPath_cases h host with ⟨install, -, hexport⟩ | ⟨hnone, -⟩
      · rw [hexport] at hsame
        exact absurd (hsame ▸ settled_export env install) h
      · exact hnone
    rcases after_latch _ hstays hmoves env hosts with
      ⟨hall, hafter⟩ | ⟨before, host, rest, hsplit, hbefore, hset, hafter⟩
    · exact .inl ⟨fun host hhost => hnothing host (hall host hhost), hafter⟩
    · rcases ensureLiboqsPath_cases h host with ⟨install, hfinds, hexport⟩ | ⟨-, hsame⟩
      · refine .inr ⟨before, host, rest, install, hsplit, fun c hc => hnothing c (hbefore c hc), hfinds, ?_⟩
        rw [hafter, hexport]
      · rw [hsame] at hset
        exact absurd hset h

/-! ### Two calls -/

namespace LiboqsExample

/-- The library that the path names is there, and so is the one in the home directory. -/
def host : Host where
  home := .ok (.ofStr (str "/home/u"))
  fileExists path := .ok (path.toStr = str "/opt/oqs/lib/liboqs.so" || path.toStr = str "/home/u/.local/lib/liboqs.so")

def env : Environ :=
  { oqsInstallPath := none, skPqcLiboqs := some (str "/opt/oqs/lib/liboqs.so"), ldLibraryPath := some (str "/usr/lib") }

/-- A machine without any library. -/
def bare : Host := { host with fileExists := fun _ => .ok false }

example : (ensureLiboqsPath host env).2 = { env with
    oqsInstallPath := some (str "/opt/oqs"), ldLibraryPath := some (str "/opt/oqs/lib:/usr/lib") } := by decide

theorem search_host : (do firstHolding host (← candidates host env)) = .ok (some (.ofStr (str "/opt/oqs"))) := rfl

theorem search_bare : (do firstHolding bare (← candidates bare env)) = .ok none := rfl

/-- The second call finds a library and is the last to change anything. -/
theorem ensureLiboqsPath_runs_example :
    after (fun env host => ensureLiboqsPath host env) env [bare, host] = env.export (.ofStr (str "/opt/oqs")) ∧
      (env.export (.ofStr (str "/opt/oqs"))).searchPath = [str "/opt/oqs/lib", str "/usr/lib"] ∧
      after (fun env host => ensureLiboqsPath host env) (env.export (.ofStr (str "/opt/oqs"))) [bare, host]
        = env.export (.ofStr (str "/opt/oqs")) := by
  have hunset : ¬env.Settled := fun h => h rfl
  obtain ⟨-, hfirst, hpath⟩ := ensureLiboqsPath_runs env [bare, host]
  have hlater := (ensureLiboqsPath_runs (env.export (.ofStr (str "/opt/oqs"))) [bare, host]).1 (settled_export _ _)
  obtain ⟨-, hsearch⟩ := hpath (.ofStr (str "/opt/oqs"))
  refine ⟨?_, (hsearch (by decide)).trans (by decide), hlater⟩
  rcases hfirst hunset with ⟨hnone, -⟩ | ⟨before, found, rest, install, hsplit, -, hfinds, hafter⟩
  · exact absurd (search_eq_some.mp search_host) (hnone host (List.mem_cons_of_mem _ List.mem_cons_self) _)
  · have hsome := search_eq_some.mpr hfinds
    have hfound : found ∈ [bare, host] := hsplit ▸ List.mem_append_right before List.mem_cons_self
    rcases List.mem_pair.mp hfound with rfl | rfl
    · cases search_bare.symm.trans hsome
    · cases search_host.symm.trans hsome
      exact hafter

end LiboqsExample

end Pqkem
end SkPqc
