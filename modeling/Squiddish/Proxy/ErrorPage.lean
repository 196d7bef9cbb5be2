import Squiddish.Lib.Escape
import Squiddish.Proxy.Respond

/-!
# ErrorPage — the page a client gets for an error

`build_error_page` of `handler.rs`.  The text of an error names hosts and URIs as the client wrote
them, so it is escaped before it is put into the page: `htmlEscape_safe` says what that is worth.
-/

namespace Squiddish
namespace Proxy

open Lib Cache

/-! ## Escaping -/

/-- `html_escape`: five passes, each over the whole text the one before it has left. -/
def htmlEscape (s : Str) : Str :=
  s |> replace '&' "&amp;".toList
    |> replace '<' "&lt;".toList
    |> replace '>' "&gt;".toList
    |> replace '"' "&quot;".toList
    |> replace '\'' "&#x27;".toList

/-- The special characters of the language and their entities. -/
def htmlEntity (c : Char) : Str :=
  if c = '&' then "&amp;".toList
  else if c = '<' then "&lt;".toList
  else if c = '>' then "&gt;".toList
  else if c = '"' then "&quot;".toList
  else if c = '\'' then "&#x27;".toList
  else [c]

/-- The characters that open and close tags and the values in them. -/
def markup : Str := ['<', '>', '"', '\'']

def specials : Str := '&' :: markup

/-- The same as a table, `&` being what entities begin with. -/
def htmlTable : EscapeTable Char where
  mark := '&'
  rules := specials.map (fun c => (c, htmlEntity c))
  special_mark := ⟨('&', "&amp;".toList), by decide, rfl⟩
  entity := by
    have hstart : ∀ p ∈ specials.map (fun c => (c, htmlEntity c)),
        p.2 = '&' :: p.2.tail ∧ '&' ∉ p.2.tail :=
      forall_mem_of_all (by decide)
    exact fun p hp => ⟨p.2.tail, hstart p hp⟩
  plain := by
    have hplain : ∀ p ∈ specials.map (fun c => (c, htmlEntity c)),
        (specials.map (fun c => (c, htmlEntity c))).all
          (fun q => q.1 ≠ '&' → q.1 ∉ p.2) = true :=
      forall_mem_of_all (by decide)
    exact fun p hp => forall_mem_of_all (hplain p hp)
  prefixFree := by
    have hpre : ∀ p ∈ specials.map (fun c => (c, htmlEntity c)),
        (specials.map (fun c => (c, htmlEntity c))).all (fun q => p.2 <+: q.2 → p = q) = true :=
      forall_mem_of_all (by decide)
    exact fun p hp => forall_mem_of_all (hpre p hp)

theorem entityOf_htmlTable (c : Char) : entityOf htmlTable.rules c = htmlEntity c := by
  by_cases hc : c ∈ specials
  · have hall : ∀ d ∈ specials, entityOf htmlTable.rules d = htmlEntity d :=
      forall_mem_of_all (by decide)
    exact hall c hc
  · have hother : ∀ p ∈ htmlTable.rules, p.1 ≠ c := by
      rintro p hp rfl
      rcases List.mem_map.1 hp with ⟨d, hd, rfl⟩
      exact hc hd
    rw [entityOf_of_notMem hother]
    have hne : c ≠ '&' ∧ c ≠ '<' ∧ c ≠ '>' ∧ c ≠ '"' ∧ c ≠ '\'' := by
      simpa [specials, markup] using hc
    simp [htmlEntity, hne]

/-- The five passes are one, since none finds its character in an entity of an earlier one. -/
theorem htmlEscape_eq_escape (s : Str) : htmlEscape s = htmlTable.escape s := by
  have hpasses : htmlEscape s = passes htmlTable.rules s := rfl
  rw [hpasses, passes_eq_flatMap (by decide)]
  rfl

/-- What it takes for an escaped text to be safe in the page and to say the same. -/
structure EscapedAs (s t : Str) : Prop where
  singlePass : t = s.flatMap htmlEntity
  noMarkup : ∀ c ∈ markup, c ∉ t
  /-- Wherever an `&` stands, one of the five entities begins. -/
  ampersand : ∀ a b, t = a ++ '&' :: b → ∃ c ∈ specials, htmlEntity c <+: '&' :: b
  decoded : htmlTable.unescape t = s

theorem escapedAs_htmlEscape (s : Str) : EscapedAs s (htmlEscape s) where
  singlePass := by
    rw [htmlEscape_eq_escape]
    exact List.flatMap_congr (fun c _ => entityOf_htmlTable c)
  noMarkup := by
    intro c hc
    have hrule : (c, htmlEntity c) ∈ htmlTable.rules :=
      List.mem_map.2 ⟨c, List.mem_cons_of_mem _ hc, rfl⟩
    have hmark : c ≠ '&' := by
      rintro rfl
      exact absurd hc (by decide)
    rw [htmlEscape_eq_escape]
    exact EscapeTable.notMem_escape hrule hmark s
  ampersand := by
    intro a b h
    rw [htmlEscape_eq_escape] at h
    rcases EscapeTable.exists_entity_of_mark (T := htmlTable) h with ⟨p, hp, hpre⟩
    rcases List.mem_map.1 hp with ⟨c, hc, rfl⟩
    exact ⟨c, hc, hpre⟩
  decoded := by
    rw [htmlEscape_eq_escape]
    exact EscapeTable.unescape_escape htmlTable s

/-! ## The page -/

/-- The page up to the text of the error. -/
def pageStart : Str :=
  "<!DOCTYPE html>
<html>
<head>
    <meta charset=\"utf-8\">
    <title>Squiddish Proxy Error</title>
    <style>
        body \x7b
            font-family: -apple-system, BlinkMacSystemFont, \"Segoe UI\", Roboto, sans-serif;
            max-width: 800px;
            margin: 50px auto;
            padding: 20px;
            background: #f5f5f5;
        \x7d
        .error-container \x7b
            background: white;
            border-radius: 8px;
            padding: 30px;
            box-shadow: 0 2px 10px rgba(0,0,0,0.1);
        \x7d
        h1 \x7b
            color: #d32f2f;
            margin-top: 0;
        \x7d
        .error-code \x7b
            font-family: monospace;
            background: #f5f5f5;
            padding: 15px;
            border-radius: 4px;
            margin: 20px 0;
            word-wrap: break-word;
        \x7d
        .info \x7b
            color: #666;
            margin-top: 20px;
            padding-top: 20px;
            border-top: 1px solid #eee;
        \x7d
        .timestamp \x7b
            color: #999;
            font-size: 0.9em;
        \x7d
    </style>
</head>
<body>
    <div class=\"error-container\">
        <h1>🦑 Squiddish Proxy Error</h1>
        <p>The proxy encountered an error while processing your request.</p>

        <div class=\"error-code\">
            <strong>Error:</strong> ".toList

def pageMiddle : Str :=
  "
        </div>

        <div class=\"info\">
            <p><strong>What happened?</strong></p>
            <p>The proxy was unable to complete your request. This could be due to:</p>
            <ul>
                <li>The remote server being unreachable</li>
                <li>Network connectivity issues</li>
                <li>Invalid request format</li>
                <li>Cache system errors</li>
            </ul>

            <p class=\"timestamp\">Time: ".toList

def pageEnd : Str :=
  "</p>
        </div>
    </div>
</body>
</html>".toList

/-- The page; `date` is the time of day as text. -/
def errorHtml (error : ProxyError) (date : Str) : Str :=
  pageStart ++ htmlEscape error.toText ++ pageMiddle ++ date ++ pageEnd

def errorStatus : ProxyError → Nat
  | .validationFailed _ => 400
  | .invalidUri _ => 400
  | _ => 502

/-- The end of `build_error_page`, which would panic if the builder refused a header. -/
def htmlResponse (status : Nat) (body : Bytes) : Outcome FullResponse :=
  let builder := Builder.withStatus status
  let builder := builder.header "content-type".toList "text/html; charset=utf-8".toList
  let builder := builder.header "content-length".toList (toString body.length).toList
  match builder with
  | .ok head => .ok { status := head.status, headers := head.headers, body := body }
  | .error _ => .error .panic

/-- `build_error_page`. -/
def buildErrorPage (error : ProxyError) (date : Str) : Outcome FullResponse :=
  htmlResponse (errorStatus error) (utf8Encode (errorHtml error date))

theorem headerValue_eq_ok {s : Str} {v : HeaderValue} (h : headerValue s = .ok v) :
    v = utf8Encode s := by
  unfold headerValue at h
  split at h
  · exact (Except.ok.inj h).symm
  · cases h

theorem header_eq_ok {head : Head} {name value n : Str} {v : HeaderValue}
    (hname : headerName name = .ok n) (hvalue : headerValue value = .ok v) :
    Builder.header (.ok head) name value =
      .ok { head with headers := head.headers.append n v } := by
  simp only [Builder.header, hname, hvalue]
  rfl

/-- The builder takes the two headers. -/
theorem htmlResponse_eq (status : Nat) (body : Bytes) :
    htmlResponse status body = .ok
      { status := status
        headers :=
          [("content-type".toList, .ofText "text/html; charset=utf-8".toList),
            ("content-length".toList, utf8Encode (toString body.length).toList)]
        body := body } := by
  have htype : headerName "content-type".toList = .ok "content-type".toList := by
    decide +kernel
  have hhtml : headerValue "text/html; charset=utf-8".toList =
      .ok (.ofText "text/html; charset=utf-8".toList) := by
    decide +kernel
  have hlength : headerName "content-length".toList = .ok "content-length".toList := by
    decide +kernel
  rcases headerValue_toString body.length with ⟨v, hv⟩
  have hv' := headerValue_eq_ok hv
  subst hv'
  simp only [htmlResponse, Builder.withStatus, header_eq_ok htype hhtml, header_eq_ok hlength hv]
  rfl

/-- There is always a page, and it is what was built. -/
theorem exists_page (status : Nat) (body : Bytes) :
    ∃ page, htmlResponse status body = .ok page ∧ page.body = body :=
  ⟨_, htmlResponse_eq status body, rfl⟩

/-- The characters of a page that open and close tags and the values in them. -/
def markupOf (s : Str) : Str :=
  s.filter (fun c => c ∈ markup)

theorem markupOf_htmlEscape (s : Str) : markupOf (htmlEscape s) = [] := by
  refine List.filter_eq_nil_iff.2 ?_
  intro c hc hmarkup
  exact (escapedAs_htmlEscape s).noMarkup c (by simpa using hmarkup) hc

/-- The error adds no markup of its own to the page. -/
theorem markupOf_errorHtml (error : ProxyError) (date : Str) :
    markupOf (errorHtml error date) = markupOf (pageStart ++ pageMiddle ++ date ++ pageEnd) := by
  have hnone := markupOf_htmlEscape error.toText
  unfold markupOf at hnone ⊢
  simp only [errorHtml, List.filter_append, hnone, List.append_nil]

/-- Every text is escaped safely and can be read back.  The page for an error is built with its text
escaped, and has the tags it has without any. -/
theorem htmlEscape_safe (s : Str) :
    EscapedAs s (htmlEscape s) ∧
      ∀ (error : ProxyError) (date : Str),
        (∃ page, buildErrorPage error date = .ok page ∧
          page.body = utf8Encode
            (pageStart ++ htmlEscape error.toText ++ pageMiddle ++ date ++ pageEnd)) ∧
        markupOf (errorHtml error date) =
          markupOf (pageStart ++ pageMiddle ++ date ++ pageEnd) :=
  ⟨escapedAs_htmlEscape s, fun error date =>
    ⟨exists_page (errorStatus error) (utf8Encode (errorHtml error date)),
      markupOf_errorHtml error date⟩⟩

end Proxy
end Squiddish
