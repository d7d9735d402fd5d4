import PageCompiler.FrontMatter
import PageCompiler.Text.Markup

/-!
# Documents

The complete document of a page: its metadata in the head, the markup of its template in the
container, and its script. All metadata is escaped.
-/

namespace PageCompiler

namespace Document

def defaultTitle : Text := "MTM App"

def defaultDescription : Text := "MTM Application"

/-- A metadata tag: the attribute that names it, its name and its content. -/
structure Meta where
  /-- The attribute that names the tag. -/
  label : Text
  name : Text
  content : Text
  deriving DecidableEq, Repr

def Meta.render (m : Meta) : Text :=
  "<meta " ++ m.label ++ "=\"" ++ m.name ++ "\" content=\"" ++ Text.escape m.content ++ "\">"

/-- The tag of a key, when the page has that key. -/
def optional (fields : FrontMatter) (key label name : Text) : List Meta :=
  (OrderedMap.get? fields key).toList.map fun content ↦ ⟨label, name, content⟩

/-- The metadata of a page, in a fixed order. -/
def metadata (fields : FrontMatter) : List Meta :=
  [⟨"name", "description", (OrderedMap.get? fields "description").getD defaultDescription⟩,
   ⟨"name", "route", (OrderedMap.get? fields "route").getD "/"⟩] ++
    optional fields "keywords" "name" "keywords" ++ optional fields "author" "name" "author" ++
    optional fields "ogTitle" "property" "og:title" ++
    optional fields "ogDescription" "property" "og:description" ++
    optional fields "ogImage" "property" "og:image"

def metaTags (fields : FrontMatter) : List Text := (metadata fields).map Meta.render

def title (fields : FrontMatter) : Text := (OrderedMap.get? fields "title").getD defaultTitle

/-- The document of a page with the given markup and script tag. -/
def render (fields : FrontMatter) (body scriptTag : Text) : Text :=
  "<!DOCTYPE html>\n<html lang=\"en\">\n<head>\n    <meta charset=\"UTF-8\">\n" ++
    "    <meta name=\"viewport\" content=\"width=device-width, initial-scale=1.0\">\n" ++
    "    <title>" ++ Text.escape (title fields) ++ "</title>\n" ++
    Text.unlines ((metaTags fields).map fun tag ↦ "    " ++ tag) ++
    "\n</head>\n<body>\n    <div id=\"app\">" ++ body ++ "</div>\n    " ++ scriptTag ++
    "\n</body>\n</html>\n"

/-- The file of the document for a route: the route with hyphens for slashes. -/
def fileName (route : Option Text) : Text :=
  match route with
  | none | some [] | some ['/'] => "index.html"
  | some path => (Text.trimChar '/' path).map (fun c ↦ if c = '/' then '-' else c) ++ ".html"

end Document

end PageCompiler
