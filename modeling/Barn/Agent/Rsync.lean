import Barn.Hdfs.Placement.Names

/-!
# Rsync targets

The address an agent ships to, as in `rsync.cpp`. Its last path component is the name of the
directory on the collector, which barn-hdfs decodes again; `naming_chain` follows the service and
the host from there to the name of a file on HDFS and back.
-/

namespace Barn.Agent

/-- `get_rsync_target`, on a host of the given name. -/
def getRsyncTarget (hostName destinationHostAddr remoteRsyncNamespace serviceName category : Text) :
    Text :=
  text "rsync://" ++ destinationHostAddr ++ text "/" ++ remoteRsyncNamespace ++ text "/" ++
    serviceName ++ text "@" ++ category ++ text "@" ++ hostName ++ text "/"

/-- A name as the naming chain needs it: no `@`, no `/` and no line terminator. -/
structure PlainName (name : Text) : Prop where
  noDelim : 64 ∉ name
  noSlash : 47 ∉ name
  oneLine : Hdfs.OneLine name

/-- The name of the directory that an agent ships a service to. -/
def directoryName (serviceName category hostName : Text) : Text :=
  [64].intercalate [serviceName, category, hostName]

variable {service category host : Text}

/-- A directory name ends in the host name. -/
theorem directoryName_eq : directoryName service category host =
    service ++ 64 :: (category ++ 64 :: host) := by
  simp [directoryName, List.intercalate, List.intersperse]

/-- Nothing of a directory name is a slash. -/
theorem slash_notMem_directoryName (hservice : PlainName service) (hcategory : PlainName category)
    (hhost : PlainName host) : 47 ∉ directoryName service category host := by
  rw [directoryName_eq]
  simp [hservice.noSlash, hcategory.noSlash, hhost.noSlash]

/-- The name of a path that ends in a component without slashes. -/
theorem getName_append {parent name : Text} (hslash : 47 ∉ name) (hne : name ≠ [])
    (slashes : ℕ) :
    Hdfs.getName (parent ++ 47 :: name ++ List.replicate slashes 47) = name := by
  have hnot : ∀ unit ∈ name.reverse, unit ≠ 47 := by
    intro unit hunit heq
    exact hslash (heq ▸ List.mem_reverse.1 hunit)
  obtain ⟨last, init, hname⟩ := List.exists_cons_of_ne_nil (List.reverse_ne_nil_iff.2 hne)
  have hlast : last ≠ 47 := hnot last (by simp [hname])
  have hdrop : (parent ++ 47 :: name ++ List.replicate slashes 47).rdropWhile (· = 47) =
      parent ++ 47 :: name := by
    rw [List.rdropWhile, List.reverse_append, List.reverse_replicate,
      List.dropWhile_append_of_pos (by
        intro unit hunit
        simpa using List.eq_of_mem_replicate hunit)]
    rw [List.reverse_append, List.reverse_cons, hname]
    simp only [List.cons_append, List.dropWhile_cons, hlast, decide_false, Bool.false_eq_true,
      if_false]
    rw [← List.cons_append, ← List.cons_append, ← hname]
    simp
  rw [Hdfs.getName, hdrop, List.rtakeWhile, List.reverse_append, List.reverse_cons,
    List.append_assoc, List.takeWhile_append_of_pos (by
      intro unit hunit
      simpa using hnot unit hunit)]
  simp

/-- The last component of the rsync target is the directory name. -/
theorem getName_getRsyncTarget (addr namespaceName : Text) (hservice : PlainName service)
    (hcategory : PlainName category) (hhost : PlainName host) :
    Hdfs.getName (getRsyncTarget host addr namespaceName service category) =
      directoryName service category host := by
  have htarget : getRsyncTarget host addr namespaceName service category =
      (text "rsync://" ++ addr ++ text "/" ++ namespaceName) ++
        47 :: directoryName service category host ++ List.replicate 1 47 := by
    rw [directoryName_eq]
    simp [getRsyncTarget, text]
  rw [htarget]
  refine getName_append (slash_notMem_directoryName hservice hcategory hhost) ?_ 1
  rw [directoryName_eq]
  simp

/-- The last component of a child's path is its name. -/
theorem getName_childPath (parent : Text) (hservice : PlainName service)
    (hcategory : PlainName category) (hhost : PlainName host) :
    Hdfs.getName (Hdfs.childPath parent (directoryName service category host)) =
      directoryName service category host := by
  have hpath : Hdfs.childPath parent (directoryName service category host) =
      parent ++ 47 :: directoryName service category host ++ List.replicate 0 47 := by
    simp [Hdfs.childPath, text]
  rw [hpath]
  refine getName_append (slash_notMem_directoryName hservice hcategory hhost) ?_ 0
  rw [directoryName_eq]
  simp

/-- A directory name splits into its three parts. -/
theorem split_directoryName (hservice : PlainName service) (hcategory : PlainName category)
    (hhost : PlainName host) (hne : host ≠ []) :
    split Hdfs.delim (directoryName service category host) = [service, category, host] := by
  have hparts : (directoryName service category host).splitOn 64 = [service, category, host] := by
    refine List.splitOn_intercalate 64 ?_ (by simp)
    simp [hservice.noDelim, hcategory.noDelim, hhost.noDelim]
  have hmem : Hdfs.delim ∈ directoryName service category host := by
    rw [directoryName_eq, Hdfs.delim]
    simp
  rw [split, if_pos hmem, Hdfs.delim, hparts, List.rdropWhile_eq_self_iff]
  simpa using hne

/-- The service and the host of a directory are read back from its name. -/
theorem decodeServiceInfo_directoryName (parent : Text) (hservice : PlainName service)
    (hcategory : PlainName category) (hhost : PlainName host) (hne : host ≠ []) :
    Hdfs.decodeServiceInfo (Hdfs.childPath parent (directoryName service category host)) =
      .ok ⟨service, host⟩ := by
  rw [Hdfs.decodeServiceInfo, getName_childPath parent hservice hcategory hhost,
    split_directoryName hservice hcategory hhost hne]

/-- The service and the host survive the whole chain of names: from the rsync target to the
directory on the collector, and from there to the name on HDFS and back. -/
theorem naming_chain (jvm : Jvm) (addr namespaceName parent : Text)
    (hservice : PlainName service) (hcategory : PlainName category) (hhost : PlainName host)
    (hne : host ≠ []) (hcomma : 44 ∉ host) {taistamp : Text} {time : DateTime}
    (hhex : IsHex taistamp)
    (htime : Hdfs.convertTai64ToTime jvm taistamp = .ok time)
    (hyear : 0 ≤ time.toLocalDate.year ∧ time.toLocalDate.year ≤ 9999) :
    let info : Hdfs.LocalServiceInfo := ⟨service, host⟩
    Hdfs.decodeServiceInfo (Hdfs.childPath parent
      (Hdfs.getName (getRsyncTarget host addr namespaceName service category))) = .ok info ∧
    ∃ name, Hdfs.targetName jvm taistamp info = .ok name ∧
      ∀ hdfsDir, ∃ placed, Hdfs.getPlacedFileInfo ⟨hdfsDir, name⟩ = .ok placed ∧
        placed.service = service ∧ placed.host = host ∧ placed.taistamp = taistamp ∧
        ∀ other, Hdfs.placedMatches placed other = true ↔ info = other := by
  intro info
  constructor
  · rw [getName_getRsyncTarget addr namespaceName hservice hcategory hhost]
    exact decodeServiceInfo_directoryName parent hservice hcategory hhost hne
  · obtain ⟨name, hname⟩ : ∃ name, Hdfs.targetName jvm taistamp info = .ok name := by
      rw [Hdfs.targetName, htime]
      exact ⟨_, rfl⟩
    refine ⟨name, hname, fun hdfsDir => ⟨_, Hdfs.getPlacedFileInfo_targetName hdfsDir htime hname
      hyear hservice.oneLine hhost.oneLine hcomma hhex, rfl, rfl, rfl, fun other => ?_⟩⟩
    rw [Hdfs.placedMatches, decide_eq_true_eq, Hdfs.LocalServiceInfo.ext_iff]

/-- A service name with a comma, and the first second of 2014. -/
theorem naming_chain_newYear :
    Hdfs.decodeServiceInfo (Hdfs.childPath (text "/barn_logs")
      (Hdfs.getName (getRsyncTarget (text "host1") (text "collector:1000") (text "barn_logs")
        (text "web,app") (text "main")))) = .ok ⟨text "web,app", text "host1"⟩ :=
  (naming_chain .utc (text "collector:1000") (text "barn_logs") (text "/barn_logs")
    (show PlainName (text "web,app") from ⟨by decide, by decide, by decide⟩)
    (show PlainName (text "main") from ⟨by decide, by decide, by decide⟩)
    (show PlainName (text "host1") from ⟨by decide, by decide, by decide⟩) (by decide) (by decide)
    (show IsHex (text "4000000052c35aa300000000") by decide)
    (Hdfs.convertTai64ToTime_of_millis
      (show _ = some 1388534400000 by decide)) (by decide)).1

end Barn.Agent
