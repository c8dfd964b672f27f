import Fndr.Library.Durable
import Fndr.Library.Files
import Fndr.Library.Runs

set_option autoImplicit false

/-! # Verified downloads

`download_verified` and `sha256_of` of `fndr-downloader`, as a program over the files. The server,
the failures of the operations and the sizes of reads are the `Host`'s, and SHA-256 is a function of
the bytes. A chunk reaches the file one byte at a time, so every partial write is a moment of the
run.

Only the last effect, the rename, touches the destination, and what it renames has just been
measured and hashed. A leftover that cannot be completed is deleted, so the next call starts afresh
(`destination_verified`). -/

namespace Fndr

open RustStd Runs Durable

/-! ## The surroundings of a call -/

/-- What the HTTP client reports. -/
structure HttpError where
  message : Str

/-- Why a download failed. -/
inductive DownloadError
  | http (error : HttpError)
  | io (error : IoError)
  | resumeNotSupported
  | checksumMismatch (filename expected actual : Str)
  | sizeMismatch (filename : Str) (expected actual : ℕ)

/-- A GET request. -/
structure HttpRequest where
  url : Str
  headers : List (Str × Str)

/-- The body is what its reads give in turn; after the last of them a read gives no byte. -/
structure HttpResponse where
  status : ℕ
  body : List (Except IoError (List UInt8))

/-- The operations on files of one call; writes and reads are counted. -/
inductive FileOperation
  | createDirAll
  | partLen
  | removeFile
  | openPart
  | seekEnd
  | createPart
  | write (nth : ℕ)
  | syncAll
  | actualSize
  | openForHash
  | readForHash (nth : ℕ)
  | rename

/-- The surroundings of a call: the server, the failures of the file operations, how much of a write
    arrives before it fails, and in which pieces a file is read. -/
structure Host where
  call : HttpRequest → Except HttpError HttpResponse
  fault : FileOperation → Option IoError
  /-- The bytes of a write that reach the file before it fails. -/
  written : ℕ → ℕ
  /-- The reads that give the content of a file. -/
  reads : List UInt8 → List (List UInt8)
  reads_flatten : ∀ content, (reads content).flatten = content

/-- The result of an operation that the system may fail. -/
def Host.outcome {α : Type} (host : Host) (operation : FileOperation) (result : Except IoError α) :
    Except DownloadError α :=
  match host.fault operation with
  | some error => .error (.io error)
  | none => result.mapError .io

/-- Send the request. -/
def Host.get (host : Host) (request : HttpRequest) : Except DownloadError HttpResponse :=
  (host.call request).mapError .http

/-! ## The digest -/

/-- `format!("{b:02x}")`. -/
def hexByte (b : UInt8) : Str := [(b.toNat / 16).digitChar, (b.toNat % 16).digitChar]

/-- Two digits a byte. -/
def hex (bytes : List UInt8) : Str := bytes.flatMap hexByte

/-- `str::eq_ignore_ascii_case`. -/
def eqIgnoreAsciiCase (a b : Str) : Bool := decide (toAsciiLowercase a = toAsciiLowercase b)

variable (sha256 : List UInt8 → List UInt8)

/-- The reads from the `nth` on; `hasher` holds the bytes it was updated with. -/
def hashReads (host : Host) : ℕ → List (List UInt8) → List UInt8 → Except DownloadError (List UInt8)
  | nth, [], hasher => host.outcome (.readForHash nth) (.ok hasher)
  | nth, chunk :: rest, hasher => do
      host.outcome (.readForHash nth) (.ok ())
      hashReads host (nth + 1) rest (hasher ++ chunk)

/-- The digest of a file, read piece by piece. -/
def sha256Of (host : Host) (path : Path) (files : FileSystem) : Except DownloadError Str := do
  let content ← host.outcome .openForHash (files.content path)
  let hasher ← hashReads host 0 (host.reads content) []
  return hex (sha256 hasher)

/-! ## The download -/

/-- The header that asks for the rest. -/
def rangeFrom (already : ℕ) : Str × Str :=
  ("Range".toList, "bytes=".toList ++ (toString already).toList ++ "-".toList)

/-- The request, and the part file opened for what the server sends. -/
def openPart (host : Host) (url : Str) (part : Path) (already expectedSize : ℕ) :
    Durable FileSystem DownloadError (OpenFile × HttpResponse) :=
  -- what is left of an earlier attempt is continued
  if 0 < already ∧ already < expectedSize then do
    let response ← lift (host.get ⟨url, [rangeFrom already]⟩)
    -- a server that sends the whole file would be appended to the part
    if response.status ≠ 206 then do
      attempt (fun files => host.outcome .removeFile (files.removeFile part))
      throw .resumeNotSupported
    else do
      let content ← inspect (fun files => host.outcome .openPart (files.content part))
      lift (host.outcome .seekEnd (.ok ()))
      return (⟨part, content.length⟩, response)
  else do
    let response ← lift (host.get ⟨url, []⟩)
    attempt (fun files => host.outcome .createPart (files.create part))
    return (⟨part, 0⟩, response)

/-- `write_all`, byte by byte. -/
def writeAll (file : OpenFile) : List UInt8 → Durable FileSystem DownloadError Unit
  | [] => pure ()
  | byte :: rest => do
      commit (fun files => files.write file byte)
      writeAll ⟨file.path, file.position + 1⟩ rest

/-- The loop from the `nth` write on. -/
def copyBody (host : Host) (file : OpenFile) :
    ℕ → List (Except IoError (List UInt8)) → Durable FileSystem DownloadError Unit
  | _, [] => pure ()
  | _, .error error :: _ => throw (.io error)
  -- a read of no bytes is the end of the body
  | _, .ok [] :: _ => pure ()
  | nth, .ok (byte :: bytes) :: rest =>
      let chunk := byte :: bytes
      match host.fault (.write nth) with
      | some error => do
          -- a write may fail in its middle
          writeAll file (chunk.take (host.written nth))
          throw (.io error)
      | none => do
          writeAll file chunk
          copyBody host ⟨file.path, file.position + chunk.length⟩ (nth + 1) rest

/-- The checks of the completed part file, which is deleted when it fails one of them. -/
def verifyPart (host : Host) (part : Path) (filename expectedSha256 : Str) (expectedSize : ℕ) :
    Durable FileSystem DownloadError Unit := do
  let actualSize ← inspect (fun files => host.outcome .actualSize (files.len part))
  if actualSize ≠ expectedSize then do
    attempt (fun files => host.outcome .removeFile (files.removeFile part))
    throw (.sizeMismatch filename expectedSize actualSize)
  else do
    let actual ← inspect (sha256Of sha256 host part)
    if eqIgnoreAsciiCase actual expectedSha256 then return ()
    else do
      attempt (fun files => host.outcome .removeFile (files.removeFile part))
      throw (.checksumMismatch filename expectedSha256 actual)

/-- The rest of a call, once the part file is open. -/
def completePart (host : Host) (part dest : Path) (expectedSha256 : Str) (expectedSize : ℕ)
    (opened : OpenFile × HttpResponse) : Durable FileSystem DownloadError Unit := do
  copyBody host opened.1 0 opened.2.body
  lift (host.outcome .syncAll (.ok ()))
  verifyPart sha256 host part (dest.fileName.getD []) expectedSha256 expectedSize
  attempt (fun files => host.outcome .rename (files.rename part dest))

/-- Download into the part file, from its end if there is one, check size and digest, and rename it
    to the destination. -/
def downloadVerified (host : Host) (url : Str) (dest : Path) (expectedSha256 : Str)
    (expectedSize : ℕ) : Durable FileSystem DownloadError Unit := do
  let part := dest.withExtension "part".toList
  lift (if dest.parent.isSome then host.outcome .createDirAll (.ok ()) else .ok ())
  let already ← inspect (fun files => .ok ((host.outcome .partLen (files.len part)).toOption.getD 0))
  let opened ← openPart host url part already expectedSize
  completePart sha256 host part dest expectedSha256 expectedSize opened

/-! ## What a download is for -/

variable (expectedSha256 : Str) (expectedSize : ℕ)

/-- The length and the SHA-256 of a content match. -/
def Verified (content : List UInt8) : Prop :=
  content.length = expectedSize ∧ eqIgnoreAsciiCase (hex (sha256 content)) expectedSha256 = true

/-- A verified content sits at the destination. -/
def Landed (dest : Path) (files : FileSystem) (content : List UInt8) : Prop :=
  files.node dest = some (.file content) ∧ Verified sha256 expectedSha256 expectedSize content

/-- The destination holds what it held before, or a verified content. -/
def Clean (dest : Path) (prior : Option Node) (files : FileSystem) : Prop :=
  files.node dest = prior ∨ ∃ content, Landed sha256 expectedSha256 expectedSize dest files content

/-- One call, on its host, and where it is cut. -/
structure DownloadCall where
  host : Host
  url : Str
  /-- The moment at which the call is looked at or cut. -/
  stop : Option ℕ

/-- The files that a call leaves. -/
def downloadCall (dest : Path) (files : FileSystem) (call : DownloadCall) : FileSystem :=
  (downloadVerified sha256 call.host call.url dest expectedSha256 expectedSize).cut files call.stop

/-- The body of a response is the given bytes. -/
def HttpResponse.Delivers (response : HttpResponse) (bytes : List UInt8) : Prop :=
  ∃ chunks : List (List UInt8), response.body = chunks.map .ok ∧ [] ∉ chunks ∧ chunks.flatten = bytes

/-- The server has the artifact, and resumes at an offset or sends all of it. -/
structure Host.Serves (host : Host) (url : Str) (artifact : List UInt8) : Prop where
  whole : ∃ response, host.call ⟨url, []⟩ = .ok response ∧ response.Delivers artifact
  fromOffset : ∀ already, 0 < already → already < artifact.length →
    ∃ response, host.call ⟨url, [rangeFrom already]⟩ = .ok response ∧
      ((response.status = 206 ∧ response.Delivers (artifact.drop already)) ∨
        (response.status ≠ 206 ∧ response.Delivers artifact))

/-- No operation on files fails. -/
def Host.Quiet (host : Host) : Prop := ∀ operation, host.fault operation = none

/-! ## The destination stays clean -/

variable {sha256} {expectedSha256 : Str} {expectedSize : ℕ} {host : Host} {part dest : Path}
  {prior : Option Node}

theorem Host.outcome_eq_ok {α : Type} {operation : FileOperation} {result : Except IoError α} {a : α}
    (h : host.outcome operation result = .ok a) : result = .ok a := by
  unfold Host.outcome at h
  split at h
  · cases h
  · cases result with
    | error error => cases h
    | ok b => rw [Except.ok.inj h]

theorem hashReads_eq_ok {nth : ℕ} {chunks : List (List UInt8)} {hasher bytes : List UInt8}
    (h : hashReads host nth chunks hasher = .ok bytes) : bytes = hasher ++ chunks.flatten := by
  induction chunks generalizing nth hasher with
  | nil =>
      rw [← Except.ok.inj (Host.outcome_eq_ok h), List.flatten_nil, List.append_nil]
  | cons chunk rest ih =>
      obtain ⟨-, -, hrest⟩ := Except.bind_eq_ok.1 h
      rw [ih hrest, List.flatten_cons, List.append_assoc]

/-- What is hashed is the content of the file. -/
theorem sha256Of_eq_ok {files : FileSystem} {actual : Str}
    (h : sha256Of sha256 host part files = .ok actual) :
    ∃ content, files.node part = some (.file content) ∧ actual = hex (sha256 content) := by
  obtain ⟨content, hcontent, h⟩ := Except.bind_eq_ok.1 h
  obtain ⟨hasher, hhasher, h⟩ := Except.bind_eq_ok.1 h
  refine ⟨content, FileSystem.content_eq_ok.1 (Host.outcome_eq_ok hcontent), ?_⟩
  have hall := hashReads_eq_ok hhasher
  rw [List.nil_append, host.reads_flatten] at hall
  rw [← hall, Except.ok.inj h]

/-- The part file is another file than the destination, unless neither can be a file. -/
theorem part_ne_dest (hext : dest.extension ≠ some "part".toList)
    (hnamed : (dest.withExtension "part".toList).fileName.isSome = true) :
    dest ≠ dest.withExtension "part".toList := by
  cases hname : dest.fileName with
  | none =>
      rw [Path.withExtension_of_nameless hname, hname] at hnamed
      cases hnamed
  | some name => exact (Path.withExtension_ne (by decide) hext (by rw [hname]; rfl)).symm

section Crash

variable (hpart : part.fileName.isSome = true → dest ≠ part)

include hpart

theorem removePart_crash : Crash (fun files => files.node dest = prior)
    (attempt (fun files => host.outcome .removeFile (files.removeFile part)))
    (fun _ files => files.node dest = prior)
    (Clean sha256 expectedSha256 expectedSize dest prior) := by
  refine Crash.attempt (fun files after hkept hremove => ?_)
  obtain ⟨hnamed, rfl⟩ := FileSystem.removeFile_eq_ok (Host.outcome_eq_ok hremove)
  have hother := (FileSystem.erase_other (hpart hnamed)).trans hkept
  exact ⟨Or.inl hother, hother⟩

theorem openPart_crash (url : Str) (already : ℕ) : Crash (fun files => files.node dest = prior)
    (openPart host url part already expectedSize)
    (fun opened files => opened.1.path = part ∧ files.node dest = prior)
    (Clean sha256 expectedSha256 expectedSize dest prior) := by
  unfold openPart
  split_ifs
  · refine Crash.bind (Crash.lift (fun _ _ hkept _ => hkept)) (fun response => ?_)
    split_ifs
    · exact Crash.bind (removePart_crash hpart) (fun _ => Crash.throw)
    · refine Crash.bind (Crash.inspect (fun _ _ hkept _ => hkept)) (fun content => ?_)
      exact Crash.bind (Crash.lift (fun _ _ hkept _ => hkept))
        (fun _ => Crash.pure (fun _ hkept => ⟨rfl, hkept⟩))
  · refine Crash.bind (Crash.lift (fun _ _ hkept _ => hkept)) (fun response => ?_)
    refine Crash.bind (Q := fun _ files => files.node dest = prior)
      (Crash.attempt (fun files after hkept hcreate => ?_))
      (fun _ => Crash.pure (fun _ hkept => ⟨rfl, hkept⟩))
    obtain ⟨hnamed, -, hothers⟩ := FileSystem.create_eq_ok (Host.outcome_eq_ok hcreate)
    have hother := (hothers dest (hpart hnamed)).trans hkept
    exact ⟨Or.inl hother, hother⟩

theorem writeAll_crash {file : OpenFile} (hfile : file.path = part) (bytes : List UInt8) :
    Crash (fun files => files.node dest = prior) (writeAll file bytes)
      (fun _ files => files.node dest = prior)
      (Clean sha256 expectedSha256 expectedSize dest prior) := by
  induction bytes generalizing file with
  | nil => exact Crash.pure (fun _ hkept => hkept)
  | cons byte rest ih =>
      refine Crash.bind (Crash.commit (fun files hkept => ?_)) (fun _ => ih hfile)
      have hother : (files.write file byte).node dest = prior :=
        (FileSystem.write_other (hfile ▸ hpart)).trans hkept
      exact ⟨Or.inl hother, hother⟩

theorem copyBody_crash {file : OpenFile} (hfile : file.path = part) (nth : ℕ)
    (body : List (Except IoError (List UInt8))) :
    Crash (fun files => files.node dest = prior) (copyBody host file nth body)
      (fun _ files => files.node dest = prior)
      (Clean sha256 expectedSha256 expectedSize dest prior) := by
  induction body generalizing file nth with
  | nil => exact Crash.pure (fun _ hkept => hkept)
  | cons read rest ih =>
      match read with
      | .error error => exact Crash.throw
      | .ok [] => exact Crash.pure (fun _ hkept => hkept)
      | .ok (byte :: bytes) =>
          unfold copyBody
          dsimp only
          split
          · exact Crash.bind (writeAll_crash hpart hfile _) (fun _ => Crash.throw)
          · refine Crash.bind (writeAll_crash hpart hfile _) (fun _ => ih ?_ _)
            exact hfile

/-- What passes the checks is verified, and it is still there after them. -/
theorem verifyPart_crash (filename : Str) : Crash (fun files => files.node dest = prior)
    (verifyPart sha256 host part filename expectedSha256 expectedSize)
    (fun _ files => files.node dest = prior ∧ ∃ content, files.node part = some (.file content) ∧
      Verified sha256 expectedSha256 expectedSize content)
    (Clean sha256 expectedSha256 expectedSize dest prior) := by
  unfold verifyPart
  refine Crash.bind (Q := fun size files => files.node dest = prior ∧ files.len part = .ok size)
    (Crash.inspect (fun files size hkept hlen => ⟨hkept, Host.outcome_eq_ok hlen⟩)) (fun size => ?_)
  split_ifs with hsize
  · refine Crash.bind (Q := fun _ files => files.node dest = prior) ?_ (fun _ => Crash.throw)
    exact fun files hkept => removePart_crash hpart files hkept.1
  · refine Crash.bind (Q := fun actual files => files.node dest = prior ∧
      ∃ content, files.node part = some (.file content) ∧ content.length = expectedSize ∧
        actual = hex (sha256 content)) (Crash.inspect (fun files actual hkept hhash => ?_))
      (fun actual => ?_)
    · obtain ⟨content, hcontent, hactual⟩ := sha256Of_eq_ok hhash
      refine ⟨hkept.1, content, hcontent, ?_, hactual⟩
      have hlen := hkept.2
      rw [FileSystem.len, hcontent] at hlen
      exact (Except.ok.inj hlen).trans (not_not.1 hsize)
    · split_ifs with hequal
      · refine Crash.pure (fun files hkept => ⟨hkept.1, ?_⟩)
        obtain ⟨content, hcontent, hlength, rfl⟩ := hkept.2
        exact ⟨content, hcontent, hlength, hequal⟩
      · refine Crash.bind (Q := fun _ files => files.node dest = prior) ?_ (fun _ => Crash.throw)
        exact fun files hkept => removePart_crash hpart files hkept.1

end Crash

theorem downloadVerified_crash (hext : dest.extension ≠ some "part".toList) (url : Str)
    (prior : Option Node) :
    Crash (fun files => files.node dest = prior)
      (downloadVerified sha256 host url dest expectedSha256 expectedSize)
      (fun _ => Clean sha256 expectedSha256 expectedSize dest prior)
      (Clean sha256 expectedSha256 expectedSize dest prior) := by
  have hpart := part_ne_dest hext
  refine Crash.bind (Crash.lift (fun _ _ hkept _ => hkept)) (fun _ => ?_)
  refine Crash.bind (Crash.inspect (fun _ _ hkept _ => hkept)) (fun already => ?_)
  refine Crash.bind (openPart_crash hpart url already) (fun opened => ?_)
  refine Crash.bind (Q := fun _ files => files.node dest = prior) ?_ (fun _ => ?_)
  · exact fun files hkept => copyBody_crash hpart hkept.1 0 opened.2.body files hkept.2
  refine Crash.bind (Crash.lift (fun _ _ hkept _ => hkept)) (fun _ => ?_)
  refine Crash.bind (verifyPart_crash hpart _) (fun _ => ?_)
  refine Crash.attempt (fun files after hverified hrename => ?_)
  obtain ⟨content, hcontent, hlanded⟩ :=
    FileSystem.rename_eq_ok (Host.outcome_eq_ok hrename)
  obtain ⟨content', hcontent', hchecked⟩ := hverified.2
  obtain rfl : content' = content := by
    rw [hcontent'] at hcontent
    exact Node.file.inj (Option.some_inj.1 hcontent)
  have hclean : Clean sha256 expectedSha256 expectedSize dest prior after :=
    Or.inr ⟨content', hlanded, hchecked⟩
  exact ⟨hclean, hclean⟩

/-- Calls that are cut anywhere, one after the other, leave the destination clean. -/
theorem downloadCalls_clean (hext : dest.extension ≠ some "part".toList) (files : FileSystem)
    (calls : List DownloadCall) :
    AllStates (downloadCall sha256 expectedSha256 expectedSize dest)
      (Clean sha256 expectedSha256 expectedSize dest (files.node dest)) files calls := by
  refine AllStates.of_step (fun before call hbefore => ?_) (Or.inl rfl)
  rcases (downloadVerified_crash hext call.url (before.node dest)).cut rfl (Or.inl rfl)
    call.stop with hsame | hlanded
  · rcases hbefore with hprior | ⟨content, hlanded, hverified⟩
    · exact Or.inl (hsame.trans hprior)
    · exact Or.inr ⟨content, hsame.trans hlanded, hverified⟩
  · exact Or.inr hlanded

/-! ## A leftover is completed or deleted -/

/-- The part file has a content, and the destination is as it was. -/
def Holding (part dest : Path) (content : List UInt8) (prior : Option Node) (files : FileSystem) :
    Prop :=
  files.node part = some (.file content) ∧ files.node dest = prior

theorem Host.Quiet.outcome (h : host.Quiet) {α : Type} (operation : FileOperation) (a : α) :
    host.outcome operation (.ok a) = .ok a := by
  rw [Host.outcome, h operation]
  rfl

theorem hashReads_ok (h : host.Quiet) (nth : ℕ) (chunks : List (List UInt8)) (hasher : List UInt8) :
    hashReads host nth chunks hasher = .ok (hasher ++ chunks.flatten) := by
  induction chunks generalizing nth hasher with
  | nil => rw [hashReads, h.outcome, List.flatten_nil, List.append_nil]
  | cons chunk rest ih =>
      rw [hashReads, h.outcome]
      exact (ih (nth + 1) (hasher ++ chunk)).trans (by rw [List.flatten_cons, List.append_assoc])

theorem sha256Of_ok (h : host.Quiet) {files : FileSystem} {content : List UInt8}
    (hcontent : files.node part = some (.file content)) :
    sha256Of sha256 host part files = .ok (hex (sha256 content)) := by
  rw [sha256Of, FileSystem.content_eq_ok.2 hcontent, h.outcome]
  change hashReads host 0 (host.reads content) [] >>= _ = _
  rw [hashReads_ok h, List.nil_append, host.reads_flatten]
  rfl

section Ends

variable (hquiet : host.Quiet) (hpart : dest ≠ part) {E : DownloadError → FileSystem → Prop}
  {content : List UInt8}

include hpart

theorem removePart_ends (hquiet : host.Quiet) : Ends (Holding part dest content prior)
    (attempt (fun files => host.outcome .removeFile (files.removeFile part)))
    (fun _ files => files.node part = none ∧ files.node dest = prior) E := by
  refine Ends.attempt (fun files h => ⟨files.erase part, ?_, FileSystem.erase_self files part,
    (FileSystem.erase_other hpart).trans h.2⟩)
  rw [FileSystem.removeFile_ok h.1, hquiet.outcome]

theorem writeAll_ends (bytes : List UInt8) : Ends (Holding part dest content prior)
    (writeAll ⟨part, content.length⟩ bytes)
    (fun _ => Holding part dest (content ++ bytes) prior) E := by
  induction bytes generalizing content with
  | nil =>
      rw [List.append_nil]
      exact Ends.pure (fun files h => h)
  | cons byte rest ih =>
      refine Ends.bind (Q := fun _ => Holding part dest (content ++ [byte]) prior)
        (Ends.commit (fun files h => ⟨?_, ?_⟩)) (fun _ => ?_)
      · rw [FileSystem.write_self h.1, overwrite_length]
      · exact (FileSystem.write_other (fun _ => hpart)).trans h.2
      · have hrest : Ends (Holding part dest (content ++ [byte]) prior) _ _ E := ih
        rw [List.append_assoc, List.singleton_append, List.length_append] at hrest
        exact hrest

theorem copyBody_ends (hquiet : host.Quiet) (nth : ℕ) {chunks : List (List UInt8)}
    (hchunks : [] ∉ chunks) : Ends (Holding part dest content prior)
      (copyBody host ⟨part, content.length⟩ nth (chunks.map .ok))
      (fun _ => Holding part dest (content ++ chunks.flatten) prior) E := by
  induction chunks generalizing content nth with
  | nil =>
      rw [List.flatten_nil, List.append_nil]
      exact Ends.pure (fun files h => h)
  | cons chunk rest ih =>
      match chunk with
      | [] => exact absurd List.mem_cons_self hchunks
      | byte :: bytes =>
          rw [List.map_cons, copyBody, hquiet (.write nth)]
          refine Ends.bind (writeAll_ends hpart (byte :: bytes)) (fun _ => ?_)
          rw [← List.length_append, List.flatten_cons, ← List.append_assoc]
          exact ih (nth + 1) (fun hmem => hchunks (List.mem_cons_of_mem _ hmem))

/-- A complete part file passes the checks or is deleted. -/
theorem verifyPart_ends (hquiet : host.Quiet) (filename : Str) :
    Ends (Holding part dest content prior)
      (verifyPart sha256 host part filename expectedSha256 expectedSize)
      (fun _ files => Holding part dest content prior files ∧
        Verified sha256 expectedSha256 expectedSize content)
      (fun _ files => ¬ Verified sha256 expectedSha256 expectedSize content ∧
        files.node part = none ∧ files.node dest = prior) := by
  unfold verifyPart
  refine Ends.bind
    (Q := fun size files => size = content.length ∧ Holding part dest content prior files)
    (Ends.inspect (fun files h => ⟨content.length, ?_, rfl, h⟩))
    (fun size => Ends.of_and (fun hlength => ?_))
  · rw [FileSystem.len, h.1, hquiet.outcome]
    rfl
  subst hlength
  split_ifs with hsize
  · refine Ends.bind (removePart_ends hpart hquiet) (fun _ => Ends.throw (fun files h => ⟨?_, h⟩))
    exact fun hverified => hsize hverified.1
  · refine Ends.bind (Q := fun actual files => actual = hex (sha256 content) ∧
      Holding part dest content prior files)
      (Ends.inspect (fun files h => ⟨_, sha256Of_ok hquiet h.1, rfl, h⟩))
      (fun actual => Ends.of_and (fun hactual => ?_))
    subst hactual
    split_ifs with hequal
    · exact Ends.pure (fun files h => ⟨h, not_not.1 hsize, hequal⟩)
    · refine Ends.bind (removePart_ends hpart hquiet) (fun _ => Ends.throw (fun files h => ⟨?_, h⟩))
      exact fun hverified => hequal hverified.2

/-- From an open part file and the bytes the server sends. -/
theorem completePart_ends (hquiet : host.Quiet) (hnamed : dest.fileName.isSome = true)
    (hdest : ∀ len, prior ≠ some (.directory len)) {response : HttpResponse} {bytes : List UInt8}
    (hbytes : response.Delivers bytes) : Ends (Holding part dest content prior)
      (completePart sha256 host part dest expectedSha256 expectedSize
        (⟨part, content.length⟩, response))
      (fun _ files => Landed sha256 expectedSha256 expectedSize dest files (content ++ bytes))
      (fun _ files => ¬ Verified sha256 expectedSha256 expectedSize (content ++ bytes) ∧
        files.node part = none ∧ files.node dest = prior) := by
  obtain ⟨chunks, hbody, hchunks, rfl⟩ := hbytes
  unfold completePart
  rw [hbody]
  refine Ends.bind (copyBody_ends hpart hquiet 0 hchunks) (fun _ => ?_)
  rw [hquiet.outcome]
  refine Ends.bind (Q := fun _ => Holding part dest (content ++ chunks.flatten) prior)
    (Ends.inspect (fun files h => ⟨(), rfl, h⟩)) (fun _ => ?_)
  refine Ends.bind (verifyPart_ends hpart hquiet _) (fun _ => Ends.attempt (fun files h => ?_))
  obtain ⟨⟨hcontent, hkept⟩, hverified⟩ := h
  obtain ⟨after, hrename⟩ := FileSystem.rename_ok hcontent (hkept ▸ hdest) hnamed
  obtain ⟨content', hcontent', hlanded⟩ := FileSystem.rename_eq_ok hrename
  rw [hcontent] at hcontent'
  cases hcontent'
  exact ⟨after, by rw [hrename, hquiet.outcome], hlanded, hverified⟩

omit hpart in
/-- A part file that is not resumed is made anew. -/
theorem openPart_ends_fresh (hpart : part ≠ dest) (hquiet : host.Quiet) {url : Str}
    {artifact : List UInt8} (hserves : host.Serves url artifact)
    (hnamed : part.fileName.isSome = true) {already : ℕ}
    (hfresh : ¬ (0 < already ∧ already < artifact.length)) :
    Ends (fun files => (∀ len, files.node part ≠ some (.directory len)) ∧ files.node dest = prior)
      (openPart host url part already artifact.length)
      (fun opened files => (opened.1 = ⟨part, 0⟩ ∧ opened.2.Delivers artifact) ∧
        Holding part dest [] prior files) E := by
  obtain ⟨response, hcall, hdelivers⟩ := hserves.whole
  unfold openPart
  rw [if_neg hfresh, Host.get, hcall]
  refine Ends.bind (Q := fun got files => got = response ∧
    (∀ len, files.node part ≠ some (.directory len)) ∧ files.node dest = prior)
    (Ends.inspect (fun files h => ⟨response, rfl, rfl, h⟩)) (fun got => Ends.of_and (fun hgot => ?_))
  subst hgot
  refine Ends.bind (Q := fun _ => Holding part dest [] prior) (Ends.attempt (fun files h => ?_))
    (fun _ => Ends.pure (fun files h => ⟨⟨rfl, hdelivers⟩, h⟩))
  obtain ⟨after, hcreate⟩ := FileSystem.create_ok hnamed h.1
  obtain ⟨-, hempty, hothers⟩ := FileSystem.create_eq_ok hcreate
  exact ⟨after, by rw [hcreate, hquiet.outcome], hempty, (hothers dest hpart.symm).trans h.2⟩

/-- A part file that is resumed is kept when the server resumes, else it is deleted. -/
theorem openPart_ends_resume (hquiet : host.Quiet) {url : Str} {artifact : List UInt8}
    (hserves : host.Serves url artifact)
    (hshort : 0 < content.length ∧ content.length < artifact.length) :
    Ends (Holding part dest content prior) (openPart host url part content.length artifact.length)
      (fun opened files => (opened.1 = ⟨part, content.length⟩ ∧
        opened.2.Delivers (artifact.drop content.length)) ∧ Holding part dest content prior files)
      (fun _ files => files.node part = none ∧ files.node dest = prior) := by
  obtain ⟨response, hcall, hdelivers⟩ := hserves.fromOffset content.length hshort.1 hshort.2
  unfold openPart
  rw [if_pos hshort, Host.get, hcall]
  refine Ends.bind (Q := fun got files => got = response ∧ Holding part dest content prior files)
    (Ends.inspect (fun files h => ⟨response, rfl, rfl, h⟩)) (fun got => Ends.of_and (fun hgot => ?_))
  subst hgot
  rcases hdelivers with ⟨hstatus, hrest⟩ | ⟨hstatus, -⟩
  · rw [if_neg (not_not.2 hstatus)]
    refine Ends.bind
      (Q := fun found files => found = content ∧ Holding part dest content prior files)
      (Ends.inspect (fun files h => ⟨content, ?_, rfl, h⟩))
      (fun found => Ends.of_and (fun hfound => ?_))
    · rw [FileSystem.content_eq_ok.2 h.1, hquiet.outcome]
    subst hfound
    rw [hquiet.outcome]
    refine Ends.bind (Q := fun _ => Holding part dest found prior)
      (Ends.inspect (fun files h => ⟨(), rfl, h⟩))
      (fun _ => Ends.pure (fun files h => ⟨⟨rfl, hrest⟩, h⟩))
  · rw [if_pos hstatus]
    exact Ends.bind (removePart_ends hpart hquiet) (fun _ => Ends.throw (fun files h => h))

end Ends

/-- What a call finds: perhaps a leftover, and the destination. -/
def Found (part dest : Path) (leftover : Option (List UInt8)) (prior : Option Node)
    (files : FileSystem) : Prop :=
  files.node part = leftover.map .file ∧ files.node dest = prior

/-- A call lands the artifact, or the leftover once it is completed and verified. It fails only over
    a leftover it was to resume, and deletes it. -/
theorem downloadVerified_ends (hext : dest.extension ≠ some "part".toList)
    (hnamed : dest.fileName.isSome = true) (hdest : ∀ len, prior ≠ some (.directory len))
    (hquiet : host.Quiet) {url : Str} {artifact : List UInt8} (hserves : host.Serves url artifact)
    (hartifact : Verified sha256 expectedSha256 expectedSize artifact)
    (leftover : Option (List UInt8)) :
    Ends (Found (dest.withExtension "part".toList) dest leftover prior)
      (downloadVerified sha256 host url dest expectedSha256 expectedSize)
      (fun _ files => ∃ content, Landed sha256 expectedSha256 expectedSize dest files content ∧
        (content = artifact ∨
          content = leftover.getD [] ++ artifact.drop (leftover.getD []).length))
      (fun _ files => leftover.isSome = true ∧
        Found (dest.withExtension "part".toList) dest none prior files) := by
  obtain rfl := hartifact.1
  have hname := Path.withExtension_named (List.cons_ne_nil 'p' "art".toList) hnamed
  have hpart := part_ne_dest hext hname
  unfold downloadVerified
  refine Ends.bind (Q := fun _ => Found (dest.withExtension "part".toList) dest leftover prior)
    (Ends.inspect (fun files h => ⟨(), ?_, h⟩)) (fun _ => ?_)
  · split_ifs
    · rw [hquiet.outcome]
    · rfl
  refine Ends.bind (Q := fun already files => already = (leftover.getD []).length ∧
    Found (dest.withExtension "part".toList) dest leftover prior files)
    (Ends.inspect (fun files h => ⟨_, rfl, ?_, h⟩)) (fun already => Ends.of_and (fun halready => ?_))
  · rw [FileSystem.len, h.1]
    cases leftover with
    | none => rw [Host.outcome, hquiet .partLen]; rfl
    | some content => rw [Option.map_some, hquiet.outcome]; rfl
  subst halready
  -- resume when the part file is shorter than the artifact, and begin anew otherwise
  by_cases hshort : 0 < (leftover.getD []).length ∧ (leftover.getD []).length < artifact.length
  · cases leftover with
    | none => exact absurd hshort.1 (lt_irrefl 0)
    | some content =>
        refine Ends.bind ((openPart_ends_resume hpart hquiet hserves hshort).mono (fun files h => h)
          (fun _ _ h => h) (fun _ files h => ⟨rfl, h⟩)) (fun opened => Ends.of_and ?_)
        obtain ⟨file, response⟩ := opened
        rintro ⟨rfl, hdelivers⟩
        exact (completePart_ends hpart hquiet hnamed hdest hdelivers).mono (fun files h => h)
          (fun _ files h => ⟨_, h, Or.inr rfl⟩) (fun _ files h => ⟨rfl, h.2⟩)
  · refine Ends.bind ((openPart_ends_fresh hpart.symm hquiet hserves hname hshort).mono
      (fun files h => ⟨?_, h.2⟩) (fun _ _ h => h) (fun _ _ h => h)) (fun opened => Ends.of_and ?_)
    · intro len hdirectory
      rw [h.1] at hdirectory
      cases leftover <;> cases hdirectory
    · obtain ⟨file, response⟩ := opened
      rintro ⟨rfl, hdelivers⟩
      exact (completePart_ends hpart hquiet hnamed hdest hdelivers).mono (fun files h => h)
        (fun _ files h => ⟨artifact, h, Or.inl rfl⟩) (fun _ files h => absurd hartifact h.1)

/-- **Verified downloads.** Whatever the servers send and wherever calls fail or are cut, the
    destination holds its prior content or a verified one. When the server has the artifact and no
    operation on files fails, a call that finds any leftover lands a verified content, or deletes
    the leftover, and the next call lands the artifact. -/
theorem destination_verified (hext : dest.extension ≠ some "part".toList) :
    (∀ (files : FileSystem) (calls : List DownloadCall),
      AllStates (downloadCall sha256 expectedSha256 expectedSize dest)
        (Clean sha256 expectedSha256 expectedSize dest (files.node dest)) files calls) ∧
    ∀ (first second : Host) (url : Str) (artifact : List UInt8) (leftover : Option (List UInt8))
      (prior : Option Node) (files : FileSystem),
      Verified sha256 expectedSha256 expectedSize artifact →
      first.Serves url artifact → first.Quiet → second.Serves url artifact → second.Quiet →
      dest.fileName.isSome = true → (∀ len, prior ≠ some (.directory len)) →
      Found (dest.withExtension "part".toList) dest leftover prior files →
      let one := downloadVerified sha256 first url dest expectedSha256 expectedSize
      let two := downloadVerified sha256 second url dest expectedSha256 expectedSize
      ((one files).1 = .ok () ∧ ∃ content,
        Landed sha256 expectedSha256 expectedSize dest (one.final files) content ∧
        (content = artifact ∨
          content = leftover.getD [] ++ artifact.drop (leftover.getD []).length)) ∨
      ∃ error, (one files).1 = .error error ∧ (two (one.final files)).1 = .ok () ∧
        Landed sha256 expectedSha256 expectedSize dest (two.final (one.final files)) artifact := by
  refine ⟨downloadCalls_clean hext, ?_⟩
  intro first second url artifact leftover prior files hartifact hserves hquiet hserves' hquiet'
    hnamed hdest hfound one two
  have hone := downloadVerified_ends hext hnamed hdest hquiet hserves hartifact leftover files hfound
  cases hresult : (one files).1 with
  | ok _ => exact Or.inl ⟨rfl, hone.1 () hresult⟩
  | error error =>
      refine Or.inr ⟨error, rfl, ?_⟩
      obtain ⟨-, hleft⟩ := hone.2 error hresult
      -- a failed resume has removed the part file, so the second call begins anew
      have htwo := downloadVerified_ends hext hnamed hdest hquiet' hserves' hartifact none _ hleft
      cases hresult' : (two (one.final files)).1 with
      | error error' => cases (htwo.2 error' hresult').1
      | ok _ =>
          obtain ⟨content, hlanded, rfl | rfl⟩ := htwo.1 () hresult'
          · exact ⟨rfl, hlanded⟩
          · exact ⟨rfl, hlanded⟩

section Example

/-- SHA-256 at the text "abc". -/
def abcDigest (content : List UInt8) : List UInt8 :=
  if content = [97, 98, 99] then
    [0xba, 0x78, 0x16, 0xbf, 0x8f, 0x01, 0xcf, 0xea, 0x41, 0x41, 0x40, 0xde, 0x5d, 0xae, 0x22, 0x23,
      0xb0, 0x03, 0x61, 0xa3, 0x96, 0x17, 0x7a, 0x9c, 0xb4, 0x10, 0xff, 0x61, 0xf2, 0x00, 0x15, 0xad]
  else []

/-- The digest of `abc`. -/
def abcSha256 : Str :=
  "ba7816bf8f01cfea414140de5dae2223b00361a396177a9cb410ff61f20015ad".toList

/-- A server of "abc" that does not resume. -/
def abcHost : Host where
  call _ := .ok ⟨200, [.ok [97, 98, 99]]⟩
  fault _ := none
  written _ := 0
  reads content := [content]
  reads_flatten content := List.append_nil content

/-- Where a model would go. -/
def abcDest : Path := ⟨[.normal "models".toList, .normal "a.gguf".toList]⟩

/-- A part file that was corrupted. -/
def abcFiles : FileSystem :=
  FileSystem.empty.set (abcDest.withExtension "part".toList) [120, 98] (by decide)

theorem abcHost_serves : abcHost.Serves "https://host/a.gguf".toList [97, 98, 99] where
  whole := ⟨_, rfl, [[97, 98, 99]], rfl, by decide, rfl⟩
  fromOffset _ _ _ := ⟨_, rfl, Or.inr ⟨by decide, [[97, 98, 99]], rfl, by decide, rfl⟩⟩

theorem destination_verified_abc :
    AllStates (downloadCall abcDigest abcSha256 3 abcDest)
      (Clean abcDigest abcSha256 3 abcDest (abcFiles.node abcDest)) abcFiles
      [⟨abcHost, "https://host/a.gguf".toList, some 1⟩] ∧
    let call := downloadVerified abcDigest abcHost "https://host/a.gguf".toList abcDest abcSha256 3
    ((call abcFiles).1 = .ok () ∧ ∃ content,
      Landed abcDigest abcSha256 3 abcDest (call.final abcFiles) content ∧
        (content = [97, 98, 99] ∨ content = [120, 98, 99])) ∨
    ∃ error, (call abcFiles).1 = .error error ∧ (call (call.final abcFiles)).1 = .ok () ∧
      Landed abcDigest abcSha256 3 abcDest (call.final (call.final abcFiles)) [97, 98, 99] := by
  have hext : abcDest.extension ≠ some "part".toList := by decide
  have hquiet : abcHost.Quiet := fun _ => rfl
  have habc : Verified abcDigest abcSha256 3 [97, 98, 99] := ⟨rfl, by decide⟩
  have hfound : Found (abcDest.withExtension "part".toList) abcDest (some [120, 98]) none abcFiles :=
    ⟨FileSystem.set_self .., FileSystem.set_other (by decide)⟩
  exact ⟨(destination_verified hext).1 abcFiles _,
    (destination_verified hext).2 abcHost abcHost _ _ _ none abcFiles habc abcHost_serves hquiet
      abcHost_serves hquiet (by decide) nofun hfound⟩

end Example

end Fndr
