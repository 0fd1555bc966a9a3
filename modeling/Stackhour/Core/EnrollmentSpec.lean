import Stackhour.Core.LenientBase64

/-!
# Enrollment codes round-trip

A code is read back from the text it was made of, as far as the reader takes codes of its
length. The URL is validated a second time then, which takes another slash from its end.
-/

namespace Stackhour.Core

open Domain JsonGrammar

/-! ## A code is read back -/

theorem isCodeByte_letter : ∀ v < 64, isCodeByte (letterByte .urlSafe v) = true := by decide

variable {parseUrl : String → Option Url} {ft : FloatText} {fl : Floats}

theorem payload_fits (serverUrl machine token : String) :
    (payload serverUrl machine token).Fits 127 := by
  have hkeys : ["v", "serverUrl", "machine", "token"].Nodup := by decide
  refine .object hkeys ?_
  simp only [List.forall_mem_cons, List.not_mem_nil, false_implies, implies_true, and_true]
  exact ⟨.number (by decide), .string _, .string _, .string _⟩

theorem payloadBytes_ne_nil (serverUrl machine token : String) :
    payloadBytes ft serverUrl machine token ≠ [] := by
  intro h
  have htext := congrArg Utf8.lossy h
  unfold payloadBytes at htext
  rw [Utf8.lossy_encode] at htext
  exact List.cons_ne_nil _ _ htext

/-- **A code is read back** if it is short enough: the URL is validated again, and the fields
are trimmed again. -/
theorem parseEnrollment_encode (hft : ft.Lawful) (serverUrl machine token : String) :
    parseEnrollment parseUrl ft fl (String.ofList
        (Base64.encode (payloadBytes ft serverUrl machine token))) =
      if (payloadBytes ft serverUrl machine token).length ≤ 12288 then
        (validUrl parseUrl serverUrl).map fun u =>
          { serverUrl := u
            machine := fieldTrim fl (some (.string machine))
            token := fieldTrim fl (some (.string token)) }
      else .error "invalid enrollment code" := by
  have hlt := Base64.sextets_lt (payloadBytes ft serverUrl machine token)
  have hbytes : Utf8.encode (Base64.encode (payloadBytes ft serverUrl machine token)) =
      (Base64.sextets (payloadBytes ft serverUrl machine token)).map (letterByte .urlSafe) :=
    encode_letters .urlSafe hlt
  have hdecode := lenientBase64Decode_encodeAs .urlSafe false
    (payloadBytes ft serverUrl machine token)
  rw [Base64.encodeAs_urlSafe, hbytes] at hdecode
  have hlength : ((Base64.sextets (payloadBytes ft serverUrl machine token)).map
      (letterByte .urlSafe)).length = (4 * (payloadBytes ft serverUrl machine token).length + 2) / 3 := by
    rw [List.length_map, Base64.length_sextets]
  have hpos := List.length_pos_of_ne_nil (@payloadBytes_ne_nil ft serverUrl machine token)
  have hnonempty : ((Base64.sextets (payloadBytes ft serverUrl machine token)).map
      (letterByte .urlSafe)).isEmpty = false := by
    rw [List.isEmpty_eq_false_iff, ← List.length_pos_iff]
    omega
  have hall : ((Base64.sextets (payloadBytes ft serverUrl machine token)).map
      (letterByte .urlSafe)).all isCodeByte = true := by
    rw [List.all_map, List.all_eq_true]
    exact fun v hv => isCodeByte_letter v (hlt v hv)
  have hread : parse ft (Utf8.lossy (payloadBytes ft serverUrl machine token)) =
      .ok (payload serverUrl machine token) := by
    unfold payloadBytes
    rw [Utf8.lossy_encode]
    exact parse_compact hft (payload_fits serverUrl machine token)
  unfold parseEnrollment
  simp only [String.toList_ofList, hbytes, hnonempty, hall, Bool.false_or, Bool.not_true,
    Bool.or_false, decide_eq_true_eq, hlength, hdecode, hread]
  by_cases hshort : (payloadBytes ft serverUrl machine token).length ≤ 12288
  · rw [if_pos hshort, if_neg (by omega)]
    have hurl : jsDisplay fl (.string serverUrl) = serverUrl := by
      rw [jsDisplay]
    show (validUrl parseUrl (jsDisplay fl (.string serverUrl))).map _ = _
    rw [hurl]
    rfl
  · rw [if_neg hshort, if_pos (by omega)]

/-! ## URLs are validated twice -/

/-- What is relied on of the `url` crate: a URL is parsed from the text it is printed as. Without
the slash it ends in, that text is one that is printed itself, or it ends with the host: then
the slash is the path, and is printed again. -/
structure UrlCrate (parseUrl : String → Option Url) : Prop where
  printed : ∀ {s v}, parseUrl s = some v → parseUrl v.href = some v
  unslashed : ∀ {s v c}, parseUrl s = some v → v.scheme = "http" ∨ v.scheme = "https" →
    v.href.toList = c ++ ['/'] → ∃ w, parseUrl (String.ofList c) = some w ∧ w.scheme = v.scheme ∧
      (w.href.toList = c ∨ (c.getLast? ≠ some '/' ∧ w.href = v.href))

theorem stripSlash_concat {href : String} {c : List Char} (h : href.toList = c ++ ['/']) :
    stripSlash href = String.ofList c := by
  unfold stripSlash
  rw [h, List.getLast?_concat, if_pos rfl, List.dropLast_concat]

theorem stripSlash_self {href : String} (h : href.toList.getLast? ≠ some '/') :
    stripSlash href = href := if_neg h

theorem stripSlash_eq_self {href : String} :
    stripSlash href = href ↔ href.toList.getLast? ≠ some '/' := by
  constructor
  · intro h hlast
    obtain ⟨c, hc⟩ := List.getLast?_eq_some_iff.mp hlast
    have hshort := congrArg (fun s => s.toList.length) ((stripSlash_concat hc).symm.trans h)
    simp only [String.toList_ofList, hc, List.length_append, List.length_singleton] at hshort
    omega
  · exact stripSlash_self

theorem validUrl_of_parse {u : String} {v : Url} (h : parseUrl u = some v)
    (hscheme : v.scheme = "http" ∨ v.scheme = "https") :
    validUrl parseUrl u = .ok (stripSlash v.href) := by
  unfold validUrl
  rw [h]
  exact if_neg fun hboth => hscheme.elim hboth.1 hboth.2

/-- **What is valid is valid again**, and loses one more slash. -/
theorem validUrl_again (hcrate : UrlCrate parseUrl) {u clean : String}
    (h : validUrl parseUrl u = .ok clean) : validUrl parseUrl clean = .ok (stripSlash clean) := by
  unfold validUrl at h
  split at h
  · cases h
  · next v hv =>
      split at h
      · cases h
      · next hscheme =>
          have hscheme : v.scheme = "http" ∨ v.scheme = "https" := by
            by_contra hnot
            exact hscheme (not_or.mp hnot)
          obtain rfl := Except.ok.inj h
          by_cases hslash : v.href.toList.getLast? = some '/'
          · obtain ⟨c, hc⟩ := List.getLast?_eq_some_iff.mp hslash
            obtain ⟨w, hw, hsame, hhref⟩ := hcrate.unslashed hv hscheme hc
            rw [stripSlash_concat hc, validUrl_of_parse hw (hsame ▸ hscheme)]
            rcases hhref with hprinted | ⟨hhost, hroot⟩
            · rw [← hprinted, String.ofList_toList]
            · rw [hroot, stripSlash_concat hc, stripSlash_self]
              rwa [String.toList_ofList]
          · rw [stripSlash_self hslash]
            exact validUrl_of_parse (hcrate.printed hv) hscheme

/-! ## The round trip -/

theorem jsTrimmed_jsTrimmed (s : String) : jsTrimmed (jsTrimmed s) = jsTrimmed s := by
  unfold jsTrimmed jsTrim
  rw [String.toList_ofList, trimMatches_trimMatches]

theorem fieldTrim_trimmed {s : String} (h : jsTrimmed s ≠ "") :
    fieldTrim fl (some (.string (jsTrimmed s))) = jsTrimmed s := by
  have htruthy : jsTruthy fl (.string (jsTrimmed s)) = true := bne_iff_ne.mpr h
  have hdisplay : jsDisplay fl (.string (jsTrimmed s)) = jsTrimmed s := by
    rw [jsDisplay]
  unfold fieldTrim
  dsimp only
  rw [if_pos htruthy, hdisplay, jsTrimmed_jsTrimmed]

/-- What a code was made of. -/
theorem createEnrollment_ok {u machine token code : String}
    (h : createEnrollment parseUrl ft u machine token = .ok code) :
    ∃ clean, validUrl parseUrl u = .ok clean ∧ jsTrimmed machine ≠ "" ∧ jsTrimmed token ≠ "" ∧
      code = String.ofList
        (Base64.encode (payloadBytes ft clean (jsTrimmed machine) (jsTrimmed token))) := by
  unfold createEnrollment at h
  split at h
  · cases h
  · next clean hclean =>
      split at h
      · cases h
      · next hmachine =>
          split at h
          · cases h
          · next htoken => exact ⟨clean, hclean, hmachine, htoken, (Except.ok.inj h).symm⟩

/-- **A code round-trips** exactly when the text of its document has 12288 bytes at most, and the
validated URL does not end in a slash. -/
theorem enrollment_round_trip (hcrate : UrlCrate parseUrl) (hft : ft.Lawful) (fl : Floats)
    {u machine token code : String}
    (h : createEnrollment parseUrl ft u machine token = .ok code) :
    ∃ clean, validUrl parseUrl u = .ok clean ∧
      (parseEnrollment parseUrl ft fl code =
          .ok ⟨clean, jsTrimmed machine, jsTrimmed token⟩ ↔
        (payloadBytes ft clean (jsTrimmed machine) (jsTrimmed token)).length ≤ 12288 ∧
          clean.toList.getLast? ≠ some '/') := by
  obtain ⟨clean, hclean, hmachine, htoken, rfl⟩ := createEnrollment_ok h
  refine ⟨clean, hclean, ?_⟩
  rw [parseEnrollment_encode hft, fieldTrim_trimmed hmachine, fieldTrim_trimmed htoken,
    validUrl_again hcrate hclean, ← stripSlash_eq_self]
  split
  · next hshort =>
      show Except.ok _ = _ ↔ _
      rw [Except.ok.injEq, Enrollment.mk.injEq]
      exact ⟨fun heq => ⟨hshort, heq.1⟩, fun hall => ⟨hall.2, rfl, rfl⟩⟩
  · next hlong =>
      refine iff_of_false ?_ fun hall => hlong hall.1
      rintro ⟨⟩

/-- The crate on one host: without a path it is printed with one, and empty segments stay. -/
def parseHost (s : String) : Option Url :=
  if s = "http://h" ∨ s = "http://h/" then some ⟨"http", "http://h/"⟩
  else if s = "http://h//" then some ⟨"http", "http://h//"⟩
  else none

theorem parseHost_some {s : String} {v : Url} (h : parseHost s = some v) :
    v = ⟨"http", "http://h/"⟩ ∨ v = ⟨"http", "http://h//"⟩ := by
  unfold parseHost at h
  split at h
  · exact .inl (Option.some.inj h).symm
  · split at h
    · exact .inr (Option.some.inj h).symm
    · cases h

theorem parseHost_crate : UrlCrate parseHost where
  printed h := by
    rcases parseHost_some h with rfl | rfl <;> rfl
  unslashed h _ hhref := by
    rcases parseHost_some h with rfl | rfl
    · have hc := List.append_cancel_right
        ((by decide : "http://h/".toList = "http://h".toList ++ ['/']).symm.trans hhref)
      rw [← hc]
      exact ⟨⟨"http", "http://h/"⟩, by decide, rfl, .inr ⟨by decide, rfl⟩⟩
    · have hc := List.append_cancel_right
        ((by decide : "http://h//".toList = "http://h/".toList ++ ['/']).symm.trans hhref)
      rw [← hc]
      exact ⟨⟨"http", "http://h/"⟩, by decide, rfl, .inl rfl⟩

/-- Arithmetic that no text is read with here. -/
def noFloats : Floats where
  ofInt _ := F64.zero
  toInt _ := 0
  round f := f
  isSafeInteger _ := false
  sub f _ := f
  display _ := "0"
  parse _ := F64.zero

/-- The URL of a host. -/
theorem enrollment_round_trip_host : ∃ code,
    createEnrollment parseHost floatBits "http://h" "mac" "tok" = .ok code ∧
      ∃ clean, validUrl parseHost "http://h" = .ok clean ∧
        (parseEnrollment parseHost floatBits noFloats code =
            .ok ⟨clean, jsTrimmed "mac", jsTrimmed "tok"⟩ ↔
          (payloadBytes floatBits clean (jsTrimmed "mac") (jsTrimmed "tok")).length ≤ 12288 ∧
            clean.toList.getLast? ≠ some '/') :=
  ⟨_, rfl, enrollment_round_trip parseHost_crate floatBits_lawful noFloats rfl⟩

/-- A path of two slashes loses both of them. -/
theorem two_slashes_lost : ¬ ∀ (parseUrl : String → Option Url) (ft : FloatText) (fl : Floats),
    UrlCrate parseUrl → ft.Lawful → ∀ u machine token code clean : String,
      createEnrollment parseUrl ft u machine token = .ok code →
      validUrl parseUrl u = .ok clean →
      parseEnrollment parseUrl ft fl code = .ok ⟨clean, jsTrimmed machine, jsTrimmed token⟩ := by
  intro h
  have hparse := h parseHost floatBits noFloats parseHost_crate floatBits_lawful "http://h//" "mac"
    "tok" _ "http://h/" rfl (by decide)
  have hshort : (payloadBytes floatBits "http://h/" (jsTrimmed "mac")
      (jsTrimmed "tok")).length ≤ 12288 := by decide
  have hagain : validUrl parseHost "http://h/" = .ok "http://h" := by decide
  have hread := @parseEnrollment_encode parseHost floatBits noFloats floatBits_lawful "http://h/"
    (jsTrimmed "mac") (jsTrimmed "tok")
  rw [if_pos hshort, hagain] at hread
  have hurl := congrArg Enrollment.serverUrl (Except.ok.inj (hread.symm.trans hparse))
  exact absurd hurl (by decide)

end Stackhour.Core
