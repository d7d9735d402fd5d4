import PageCompiler.Framework
import PageCompiler.Json
import PageCompiler.Property.Basic

/-!
# Mounting imported components

What the generated program has to know to mount an imported component, and the statements that
register it under its name. The component itself is looked up among the globals of the page.
-/

namespace PageCompiler

/-- What the generated program has to know about an imported component. -/
structure Definition where
  /-- The name it is used by. -/
  name : Text
  framework : Framework
  /-- The path as written. -/
  path : Text
  /-- The file it was found to stand for. -/
  resolved : Option Text := none
  properties : List Property := []

/-- The statement that mounts a component of a framework. -/
def Framework.mountStatement : Framework → Text
  | react => "ReactDOM.createRoot(el).render(React.createElement(Component, props));"
  | vue => "Vue.createApp(Component, props).mount(el);"
  | solid => "SolidWeb.render(() => Component(props), el);"
  | svelte => "new Component(\x7b target: el, props \x7d);"
  | unknown =>
    "el.innerHTML = typeof Component === 'function' ? Component(props) : String(Component);"

namespace Definition

/-- The statements that register a component, line by line. -/
def wrapperLines (d : Definition) : List Text :=
  let framework := d.framework.label
  let names := Json.list (d.properties.map fun p ↦ .text p.name)
  ["// " ++ framework ++ " component: " ++ d.name,
   "MTMComponents.register('" ++ d.name ++ "', '" ++ framework ++ "', (props) => (\x7b",
   "  props: " ++ names.write .spaced ++ ",",
   "  mount(el) \x7b",
   "    const Component = window['" ++ d.name ++ "'];",
   "    if (!Component) \x7b",
   "      el.innerHTML = '<div class=\"" ++ framework ++ "-component\">" ++ d.name ++ "</div>';",
   "      return;",
   "    \x7d",
   "    " ++ d.framework.mountStatement,
   "  \x7d",
   "\x7d));"]

/-- The statements that register a component. -/
def wrapper (d : Definition) : Text := Text.unlines d.wrapperLines

end Definition

end PageCompiler
