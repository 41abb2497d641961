import Wokcore.Protocols.Nesting

/-!
# Image URLs that can be decoded again

Every image a decoder lets through has a URL whose serialization the Chat and Responses decoders
accept, as the same URL. For an `http` URL that is the law that a serialization parses to its URL. A
`data` URL is also checked as text, and it is the serialization that will be checked then: it has
the same characters after the scheme, because those are letters, digits and the few signs of a
base64 image.
-/

set_option autoImplicit false

namespace Wokcore.Protocols.Inbound

open Lib Outcome Wokcore.Core Result Option List

variable {url : Url} {c : Char} {cs : List Char} {bytes : List Nat} {s value : String}

/-- A character that the serialization of a `data` URL keeps as it is: printable ASCII that neither
    ends the scheme nor starts a query or a fragment. -/
def isOpaqueChar (c : Char) : Bool :=
  0x21 ≤ c.toNat && c.toNat ≤ 0x7E && c != '?' && c != '#' && c != ':'

/-- What the `url` crate documents of parsing and serializing. -/
structure LawfulUrls (U : UrlLibrary) : Prop where
  /-- The serialization of a parsed URL parses to that URL. -/
  reparse : ∀ value url, U.parse value = some url → U.parse url.serialization = some url
  /-- The scheme of a URL is what it starts with. -/
  dataScheme : ∀ (rest : String) (url : Url), U.parse ("data:" ++ rest) = some url →
    url.scheme = "data"
  /-- The path of a `data` URL is kept, if it is no absolute path and has no character to encode. -/
  dataRest : ∀ (value : String) (rest : List Char) (url : Url),
    dropBytes 5 value.toList = some rest → rest.all isOpaqueChar = true →
    rest.head?.any Char.isAlpha = true → U.parse value = some url → url.scheme = "data" →
    url.serialization = "data:" ++ String.ofList rest

/-! ## Characters -/

theorem toLower_of_not_isUpper (h : ¬ c.isUpper = true) : c.toLower = c := by
  unfold Char.toLower
  rw [dif_neg]
  unfold Char.isUpper at h
  simpa using h

theorem isOpaqueChar_of_toLower (h : isOpaqueChar c.toLower = true) : isOpaqueChar c = true := by
  by_cases hu : c.isUpper = true
  · have h1 : 65 ≤ c.toNat ∧ c.toNat ≤ 90 := by
      unfold Char.isUpper at hu
      simpa [UInt32.le_iff_toNat_le, ← Char.toNat_val] using hu
    have hne : ∀ d : Char, d.toNat < 65 → c ≠ d := by
      rintro d hd rfl
      omega
    simp only [isOpaqueChar, Bool.and_eq_true, decide_eq_true_eq, bne_iff_ne]
    exact ⟨⟨⟨⟨by omega, by omega⟩, hne _ (by decide)⟩, hne _ (by decide)⟩, hne _ (by decide)⟩
  · rwa [toLower_of_not_isUpper hu] at h

theorem isAlpha_of_toLower (h : c.toLower.isAlpha = true) : c.isAlpha = true := by
  by_cases hu : c.isUpper = true
  · exact Bool.or_eq_true_iff.mpr (.inl hu)
  · rwa [toLower_of_not_isUpper hu] at h

theorem isOpaqueChar_of_base64Value {n : Nat} (h : base64Value c = some n) :
    isOpaqueChar c = true := by
  have hchar : ∀ d : Char, base64Value d = none → c ≠ d := by
    rintro d hd rfl
    rw [hd] at h
    cases h
  have hrange : 0x21 ≤ c.toNat ∧ c.toNat ≤ 0x7E := by
    unfold base64Value at h
    dsimp only at h
    split at h
    · omega
    split at h
    · omega
    split at h
    · omega
    split at h
    · next hc => subst hc; decide
    split at h
    · next hc => subst hc; decide
    · cases h
  simp only [isOpaqueChar, Bool.and_eq_true, decide_eq_true_eq, bne_iff_ne]
  exact ⟨⟨⟨hrange, hchar _ (by decide)⟩, hchar _ (by decide)⟩, hchar _ (by decide)⟩

theorem decodeBase64End_chars {a b d : Char} (h : decodeBase64End a b c d = some bytes) :
    ([a, b, c, d].all isOpaqueChar = true) ∧ bytes ≠ [] := by
  have hpad : isOpaqueChar '=' = true := by decide
  obtain ⟨x, hx, h⟩ := bind_eq_some_iff.mp h
  obtain ⟨y, hy, h⟩ := bind_eq_some_iff.mp h
  have ha := isOpaqueChar_of_base64Value hx
  have hb := isOpaqueChar_of_base64Value hy
  split at h
  · next hc =>
    split at h
    · next hd => cases h; simp [ha, hb, hc, hd.1, hpad]
    · cases h
  · obtain ⟨z, hz, h⟩ := bind_eq_some_iff.mp h
    have hc := isOpaqueChar_of_base64Value hz
    split at h
    · next hd =>
      split at h
      · cases h; simp [ha, hb, hc, hd, hpad]
      · cases h
    · obtain ⟨w, hw, h⟩ := map_eq_some_iff.mp h
      have hd := isOpaqueChar_of_base64Value hw
      subst h
      simp [ha, hb, hc, hd]

/-- A text that decodes has the characters of the alphabet, and decodes to something if it is
    something. -/
theorem decodeBase64_chars (h : decodeBase64 cs = some bytes) :
    cs.all isOpaqueChar = true ∧ (cs ≠ [] → bytes ≠ []) := by
  fun_induction decodeBase64 cs generalizing bytes with
  | case1 => exact ⟨rfl, fun h => absurd rfl h⟩
  | case2 a b c d =>
    obtain ⟨hall, hne⟩ := decodeBase64End_chars h
    exact ⟨hall, fun _ => hne⟩
  | case3 a b c d rest hrest ih =>
    obtain ⟨x, hx, h⟩ := bind_eq_some_iff.mp h
    obtain ⟨y, hy, h⟩ := bind_eq_some_iff.mp h
    obtain ⟨z, hz, h⟩ := bind_eq_some_iff.mp h
    obtain ⟨w, hw, h⟩ := bind_eq_some_iff.mp h
    obtain ⟨more, hm, h⟩ := map_eq_some_iff.mp h
    subst h
    have hall := (ih hm).1
    refine ⟨?_, fun _ => by simp⟩
    simp only [all_cons, Bool.and_eq_true]
    exact ⟨isOpaqueChar_of_base64Value hx, isOpaqueChar_of_base64Value hy,
      isOpaqueChar_of_base64Value hz, isOpaqueChar_of_base64Value hw, hall⟩
  | case4 => cases h

/-! ## Data URLs -/

/-- What is left of a text whose lower-case form is known. -/
theorem chars_of_lower (h : asciiLower cs = s) : cs.map Char.toLower = s.toList := by
  rw [← h, asciiLower, String.toList_ofList]

theorem not_mem_of_lower (h : asciiLower cs = s) (hc : c.toLower ∉ s.toList) : c ∉ cs := by
  intro hmem
  rw [← chars_of_lower h] at hc
  exact hc (mem_map_of_mem hmem)

theorem all_isOpaqueChar_of_lower (h : asciiLower cs = s) (hs : s.toList.all isOpaqueChar = true) :
    cs.all isOpaqueChar = true := by
  rw [← chars_of_lower h, List.all_map, List.all_eq_true] at hs
  exact List.all_eq_true.mpr fun c hc => isOpaqueChar_of_toLower (hs c hc)

/-- The characters of an image type. -/
theorem isImageMime_chars {mime : List Char} (h : isImageMime mime = true) :
    mime.all isOpaqueChar = true ∧ mime.head?.any Char.isAlpha = true ∧ ';' ∉ mime ∧
    ',' ∉ mime := by
  have hs : ∀ s ∈ ["image/png", "image/jpeg", "image/webp", "image/gif"],
      s.toList.all isOpaqueChar = true ∧ s.toList.head?.any Char.isAlpha = true ∧
        (';' : Char).toLower ∉ s.toList ∧ (',' : Char).toLower ∉ s.toList := by decide
  have hmem : asciiLower mime ∈ ["image/png", "image/jpeg", "image/webp", "image/gif"] :=
    contains_iff_mem.mp h
  obtain ⟨hall, hhead, hsemi, hcomma⟩ := hs _ hmem
  refine ⟨all_isOpaqueChar_of_lower rfl hall, ?_, not_mem_of_lower rfl hsemi,
    not_mem_of_lower rfl hcomma⟩
  rw [← chars_of_lower rfl] at hhead
  cases mime with
  | nil => cases hhead
  | cons c cs => exact isAlpha_of_toLower (by simpa using hhead)

/-- A checked base64 image: its type, the word for the encoding in any case, and a payload. -/
structure ImageData (mime encoding payload : List Char) : Prop where
  isImage : isImageMime mime = true
  isBase64 : asciiLower encoding = "base64"
  nonEmpty : payload ≠ []
  decodes : (decodeBase64 payload).isSome = true

/-- What stands after the scheme. -/
def imageRest (mime encoding payload : List Char) : List Char :=
  mime ++ ';' :: encoding ++ ',' :: payload

namespace ImageData

variable {mime encoding payload : List Char}

theorem isOpaque (h : ImageData mime encoding payload) :
    (imageRest mime encoding payload).all isOpaqueChar = true := by
  obtain ⟨bytes, hbytes⟩ := isSome_iff_exists.mp h.decodes
  have h1 := (isImageMime_chars h.isImage).1
  have h2 := all_isOpaqueChar_of_lower h.isBase64 (by decide)
  have h3 := (decodeBase64_chars hbytes).1
  have hsemi : isOpaqueChar ';' = true := by decide
  have hcomma : isOpaqueChar ',' = true := by decide
  simp only [imageRest, all_append, all_cons, h1, h2, h3, hsemi, hcomma, Bool.and_self]

theorem head_isAlpha (h : ImageData mime encoding payload) :
    (imageRest mime encoding payload).head?.any Char.isAlpha = true := by
  have hhead := (isImageMime_chars h.isImage).2.1
  cases mime with
  | nil => cases hhead
  | cons c cs => exact hhead

theorem splitOnce_eq {xs ys : List Char} (h : ',' ∉ xs) :
    splitOnce ',' (xs ++ ',' :: ys) = some (xs, ys) := by
  have hne : ∀ c ∈ xs, decide (c ≠ ',') = true := by
    intro c hc
    rw [decide_eq_true_eq]
    rintro rfl
    exact h hc
  have htake : (xs ++ ',' :: ys).takeWhile (· ≠ ',') = xs := by
    rw [takeWhile_append_of_pos hne]
    simp
  have hdrop : (xs ++ ',' :: ys).dropWhile (· ≠ ',') = ',' :: ys := by
    rw [dropWhile_append_of_pos hne]
    simp
  rw [splitOnce, hdrop, htake]

/-- The plain form of a checked image is checked as well. -/
theorem validate (h : ImageData mime encoding payload) :
    validateDataImageUrl ("data:" ++ String.ofList (imageRest mime encoding payload)) = true := by
  obtain ⟨bytes, hbytes⟩ := isSome_iff_exists.mp h.decodes
  obtain ⟨-, -, hsemi, hcomma⟩ := isImageMime_chars h.isImage
  have hsemi' : ';' ∉ encoding := not_mem_of_lower h.isBase64 (by decide)
  have hcomma' : ',' ∉ encoding := not_mem_of_lower h.isBase64 (by decide)
  have hsplit : (mime ++ ';' :: encoding).splitOn ';' = [mime, encoding] := by
    have hparts : ([';'].intercalate [mime, encoding]).splitOn ';' = [mime, encoding] :=
      splitOn_intercalate ';' (by simp [hsemi, hsemi']) (by simp)
    simpa [intercalate] using hparts
  have hlist : ("data:" ++ String.ofList (imageRest mime encoding payload)).toList =
      ("data:".toList ++ (mime ++ ';' :: encoding)) ++ ',' :: payload := by
    simp [imageRest]
  have hdrop : dropBytes 5 ("data:".toList ++ (mime ++ ';' :: encoding)) =
      some (mime ++ ';' :: encoding) := by simp [dropBytes, Char.utf8Size]
  have honce : splitOnce ',' (("data:".toList ++ (mime ++ ';' :: encoding)) ++ ',' :: payload) =
      some ("data:".toList ++ (mime ++ ';' :: encoding), payload) :=
    splitOnce_eq (by simp [hcomma, hcomma'])
  unfold validateDataImageUrl
  rw [hlist, honce]
  dsimp only
  rw [hdrop]
  dsimp only
  rw [hsplit]
  have hne := (decodeBase64_chars hbytes).2 h.nonEmpty
  simp [h.isImage, h.isBase64, h.nonEmpty, hbytes, hne]

end ImageData

theorem dropBytes_append {n : Nat} {xs ys : List Char} (zs : List Char)
    (h : dropBytes n xs = some ys) :
    dropBytes n (xs ++ zs) = some (ys ++ zs) := by
  fun_induction dropBytes n xs with
  | case1 cs => cases h; rw [dropBytes]
  | case2 | case4 => cases h
  | case3 n c cs hsize ih =>
    rw [cons_append, dropBytes, if_pos hsize]
    exact ih h

/-- The parts of a text that passed the check. -/
theorem imageData_of_validate (h : validateDataImageUrl value = true) :
    ∃ mime encoding payload, dropBytes 5 value.toList = some (imageRest mime encoding payload) ∧
      ImageData mime encoding payload := by
  unfold validateDataImageUrl at h
  split at h
  · cases h
  · next metadata payload hsplit =>
    split at h
    · cases h
    · next after hdrop =>
      split at h
      · next mime encoding hparts =>
        simp only [Bool.and_eq_true, beq_iff_eq, Bool.not_eq_true', isEmpty_eq_false_iff] at h
        obtain ⟨⟨⟨hmime, henc⟩, hne⟩, hdec⟩ := h
        refine ⟨mime, encoding, payload, ?_, hmime, henc, hne, ?_⟩
        · have hafter : after = mime ++ ';' :: encoding := by
            have hjoin : [';'].intercalate (after.splitOn ';') = after := intercalate_splitOn ';'
            rw [hparts] at hjoin
            simpa [intercalate] using hjoin.symm
          have hvalue : value.toList = metadata ++ ',' :: payload := by
            unfold splitOnce at hsplit
            split at hsplit
            · cases hsplit
            · next c rest hdw =>
              cases hsplit
              have hc : c = ',' := by
                have := head?_dropWhile_not (· ≠ ',') value.toList
                rw [hdw] at this
                simpa using this
              rw [hc] at hdw
              rw [← hdw, takeWhile_append_dropWhile]
          rw [hvalue, imageRest, ← hafter]
          exact dropBytes_append _ hdrop
        · cases hd : decodeBase64 payload with
          | none => rw [hd] at hdec; cases hdec
          | some bytes => rfl
      · cases h

/-! ## Images of decoded requests -/

section Lawful

variable {P : Parsers} (L : LawfulUrls P.url) {items : List InputItem} {detail : Option ImageDetail}

include L

variable {limits : AnthropicInboundLimits} {value : String} {context : ContentContext}

/-- A checked `data` image can be decoded from its serialization. -/
theorem decodeImageUrl_of_data {mime encoding payload : List Char}
    (hparse : P.url.parse value = some url) (hscheme : url.scheme = "data")
    (hrest : dropBytes 5 value.toList = some (imageRest mime encoding payload))
    (h : ImageData mime encoding payload) : decodeImageUrl P url.serialization = .ok url := by
  have hserialization := L.dataRest value _ url hrest h.isOpaque h.head_isAlpha hparse hscheme
  have hvalid : validateDataImageUrl url.serialization = true := hserialization ▸ h.validate
  rw [decodeImageUrl, L.reparse value url hparse]
  simp [hscheme, hvalid]

theorem decodeImageUrl_again (h : decodeImageUrl P value = .ok url) :
    decodeImageUrl P url.serialization = .ok url := by
  unfold decodeImageUrl at h
  split at h
  · cases h
  · next parsed hparse =>
    split at h
    · next hhttp =>
      cases h
      rw [decodeImageUrl, L.reparse value url hparse]
      exact if_pos hhttp
    · split at h
      · next hscheme =>
        split at h
        · next hvalid =>
          cases h
          obtain ⟨mime, encoding, payload, hrest, hdata⟩ := imageData_of_validate hvalid
          exact decodeImageUrl_of_data L hparse hscheme hrest hdata
        · cases h
      · cases h

/-- The image of a checked source. -/
theorem decodeImageUrl_sourceUrl {source : AnthropicSource} {u : Unit}
    (hvalid : validateSource P limits source false = .ok u) (h : sourceUrl P source = .ok url) :
    decodeImageUrl P url.serialization = .ok url := by
  obtain ⟨_, hkind, -⟩ := do_eq_ok.mp hvalid
  cases source with
  | unknown value => cases h
  | url link extra =>
    have hparse := orInvalid_eq_ok.mp h
    obtain ⟨parsed, hp, hscheme⟩ := do_eq_ok.mp hkind
    cases (orInvalid_eq_ok.mp hp).symm.trans hparse
    rw [decodeImageUrl, L.reparse link url hparse]
    exact if_pos (by simpa using hscheme)
  | base64 mediaType data extra =>
    have hparse := orInvalid_eq_ok.mp h
    have hkind := requireThat_eq_ok.mp hkind
    simp only [isAllowedMediaType, Bool.false_eq_true, if_false, Bool.and_eq_true,
      Bool.not_eq_true', String.isEmpty_eq_false_iff] at hkind
    have hdata : ImageData mediaType.toList "base64".toList data.toList :=
      ⟨hkind.1.1, by decide, by simpa using hkind.1.2, hkind.2⟩
    have hlist : ("data:" ++ mediaType ++ ";base64," ++ data).toList =
        "data:".toList ++ imageRest mediaType.toList "base64".toList data.toList := by
      simp [imageRest]
    refine decodeImageUrl_of_data L hparse ?_ ?_ hdata
    · refine L.dataScheme (mediaType ++ ";base64," ++ data) url ?_
      rw [← hparse]
      simp only [String.append_assoc]
    · rw [hlist]
      simp [dropBytes, Char.utf8Size]

theorem blockItems_imageUrl {block : AnthropicContentBlock}
    (hvalid : validateBlock P limits context block = .ok ()) (h : BlockItems P items block)
    (hi : .imageUrl url detail ∈ items) : decodeImageUrl P url.serialization = .ok url := by
  obtain ⟨source, extra, rfl, hu⟩ := h.origin hi
  rw [validateBlock] at hvalid
  split at hvalid
  · exact decodeImageUrl_sourceUrl L hvalid hu
  · cases hvalid

theorem anthropicContent_imageUrl {content : AnthropicContent}
    (hvalid : ContentValid P limits context content) (h : AnthropicContentItems P items content)
    (hi : .imageUrl url detail ∈ items) : decodeImageUrl P url.serialization = .ok url := by
  cases content with
  | text text =>
    exact absurd (h ▸ hi) (by simp)
  | blocks blocks =>
    obtain ⟨groups, hg, rfl⟩ := h
    obtain ⟨block, hmem, group, hb, hgroup⟩ := of_mem_flatten hg hi
    exact blockItems_imageUrl L (hvalid.2 block hmem) hb hgroup

/-- **Images survive.** The URL of an image of a decoded request is decoded from its
    serialization. -/
theorem decode_imageUrl {p : ClientProtocol} {requestId : String} {json : Bytes}
    {request : CanonicalRequest} (h : p.decode P requestId json = .ok request)
    (hi : .imageUrl url detail ∈ request.input) :
    decodeImageUrl P url.serialization = .ok url := by
  cases p with
  | chat =>
    obtain ⟨document, wire, -, -, h⟩ := decodeChatRequest_ok h
    obtain ⟨groups, hg, hinput⟩ := (decodeChatWire_ok h).input
    obtain ⟨message, -, group, hm, hgroup⟩ := of_mem_flatten hg (hinput ▸ hi)
    obtain ⟨value, hvalue⟩ := hm.origin hgroup
    exact decodeImageUrl_again L hvalue
  | responses =>
    obtain ⟨document, wire, -, -, h⟩ := decodeResponsesRequest_ok h
    have hinput := (decodeResponsesWire_ok h).input
    cases hw : wire.input with
    | text text =>
      rw [hw, ResponsesInputItems] at hinput
      exact absurd (hinput ▸ hi) (by simp)
    | items inputs =>
      rw [hw] at hinput
      obtain ⟨groups, hg, hflat⟩ := hinput
      obtain ⟨input, -, group, hm, hgroup⟩ := of_mem_flatten hg (hflat ▸ hi)
      obtain ⟨value, hvalue⟩ := hm.origin hgroup
      exact decodeImageUrl_again L hvalue
  | anthropic =>
    obtain ⟨document, wire, -, -, h⟩ := decodeAnthropicMessage_ok h
    have hd := decodeAnthropicWire_ok h
    obtain ⟨groups, hg, hinput⟩ := hd.input
    obtain ⟨content, hmem, group, hc, hgroup⟩ := of_mem_flatten hg (hinput ▸ hi)
    rcases mem_append.mp hmem with hsystem | hmessage
    · exact anthropicContent_imageUrl L (hd.valid.systemContent _ (mem_toList.mp hsystem)) hc hgroup
    · obtain ⟨message, hm, rfl⟩ := mem_map.mp hmessage
      exact anthropicContent_imageUrl L (hd.valid.messageContent message hm) hc hgroup

end Lawful

/-! ## Plain URLs -/

/-- A plain URL has the scheme it starts with, and the rest is the path unless it starts with a
    slash. -/
theorem splitPlain_some (h : splitPlain value = some url) :
    ∃ rest, value.toList = value.toList.takeWhile (· ≠ ':') ++ ':' :: rest ∧
      url.scheme = .ofList (value.toList.takeWhile (· ≠ ':')) ∧
      (rest.head? ≠ some '/' →
        url = plainUrl (.ofList (value.toList.takeWhile (· ≠ ':'))) "" (.ofList rest)) := by
  have hsplit := takeWhile_append_dropWhile (p := fun c => decide (c ≠ ':')) (l := value.toList)
  unfold splitPlain at h
  split at h
  · next rest hdrop =>
    rw [hdrop] at hsplit
    cases h
    exact ⟨_, hsplit.symm, rfl, fun hhead => absurd rfl hhead⟩
  · next rest _ hdrop =>
    rw [hdrop] at hsplit
    cases h
    exact ⟨_, hsplit.symm, rfl, fun _ => rfl⟩
  · cases h

theorem lawful_plainUrls : LawfulUrls plainUrls where
  reparse value url h := by
    obtain ⟨-, hagain⟩ := filter_eq_some_iff.mp h
    exact filter_eq_some_iff.mpr ⟨by simpa using hagain, hagain⟩
  dataScheme rest url h := by
    obtain ⟨hsplit, -⟩ := filter_eq_some_iff.mp h
    obtain ⟨tail, -, hscheme, -⟩ := splitPlain_some hsplit
    rw [hscheme, String.toList_append]
    rfl
  dataRest value rest url hdrop _ halpha h hdata := by
    obtain ⟨hsplit, -⟩ := filter_eq_some_iff.mp h
    obtain ⟨tail, hvalue, hscheme, hurl⟩ := splitPlain_some hsplit
    have hdata : value.toList.takeWhile (· ≠ ':') = ['d', 'a', 't', 'a'] := by
      rw [← String.toList_ofList (l := value.toList.takeWhile _), ← hscheme, hdata]
      rfl
    rw [hdata] at hvalue hurl
    have htail : dropBytes 5 value.toList = some tail := by
      rw [hvalue]
      simp [dropBytes, Char.utf8Size]
    cases htail.symm.trans hdrop
    have hslash : rest.head? ≠ some '/' := by
      intro hhead
      rw [hhead] at halpha
      exact absurd halpha (by decide)
    rw [hurl hslash]
    rfl

end Wokcore.Protocols.Inbound
