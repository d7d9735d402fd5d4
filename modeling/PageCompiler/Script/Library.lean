import PageCompiler.Text.Basic

/-!
# The library of the running page

The part of every generated program that does not depend on the page: the signal store and the
router, the registry of mounted components, and the interpreter of compiled conditions.
-/

namespace PageCompiler

namespace Script

def libraryLines : List Text :=
  List.map String.toList
  ["// MTM runtime",
   "const MTMRouter = \x7b",
   "  _signals: new Map(),",
   "  _subscribers: new Map(),",
   "  routes: new Map(),",
   "  currentRoute: null,",
   "",
   "  // Signal store: create() never resets an existing key",
   "  create(key, initialValue) \x7b",
   "    if (!this._signals.has(key)) \x7b",
   "      this._signals.set(key, initialValue);",
   "      this._subscribers.set(key, new Set());",
   "    \x7d",
   "    return \x7b",
   "      get value() \x7b return MTMRouter._signals.get(key); \x7d,",
   "      set value(newValue) \x7b",
   "        MTMRouter._signals.set(key, newValue);",
   "        MTMRouter._notify(key, newValue);",
   "      \x7d,",
   "      subscribe(callback) \x7b MTMRouter._subscribers.get(key).add(callback); \x7d",
   "    \x7d;",
   "  \x7d,",
   "",
   "  _notify(key, value) \x7b",
   "    const subscribers = this._subscribers.get(key);",
   "    if (subscribers) \x7b",
   "      subscribers.forEach(callback => callback(value));",
   "    \x7d",
   "  \x7d,",
   "",
   "  // Router",
   "  navigate(path) \x7b",
   "    if (this.currentRoute !== path) \x7b",
   "      this.currentRoute = path;",
   "      window.history.pushState(\x7b path \x7d, '', path);",
   "      this.emit('route-changed', \x7b path, route: this.routes.get(path) \x7d);",
   "    \x7d",
   "  \x7d,",
   "",
   "  setupLinkInterception() \x7b",
   "    document.addEventListener('click', (e) => \x7b",
   "      if (e.defaultPrevented || e.button !== 0 || e.metaKey || e.ctrlKey || e.shiftKey || e.altKey) \x7b",
   "        return;",
   "      \x7d",
   "      const link = e.target.closest('a[href]');",
   "      if (!link || link.hasAttribute('external') || link.target === '_blank') \x7b",
   "        return;",
   "      \x7d",
   "      const url = new URL(link.href, window.location.href);",
   "      if (url.origin !== window.location.origin) \x7b",
   "        return;",
   "      \x7d",
   "      e.preventDefault();",
   "      this.navigate(url.pathname + url.search);",
   "    \x7d);",
   "  \x7d,",
   "",
   "  setupPopState() \x7b",
   "    window.addEventListener('popstate', (e) => \x7b",
   "      const path = (e.state && e.state.path) || window.location.pathname;",
   "      this.currentRoute = path;",
   "      this.emit('route-changed', \x7b path, route: this.routes.get(path) \x7d);",
   "    \x7d);",
   "  \x7d,",
   "",
   "  init() \x7b",
   "    this.setupLinkInterception();",
   "    this.setupPopState();",
   "    this.currentRoute = window.location.pathname;",
   "  \x7d,",
   "",
   "  emit(event, detail) \x7b",
   "    window.dispatchEvent(new CustomEvent('mtm-' + event, \x7b detail \x7d));",
   "  \x7d",
   "\x7d;",
   "",
   "// Document metadata follows the current route",
   "window.addEventListener('mtm-route-changed', (e) => \x7b",
   "  const route = e.detail.route;",
   "  if (route && route.title) \x7b",
   "    document.title = route.title;",
   "  \x7d",
   "\x7d);",
   "",
   "const MTMComponents = \x7b",
   "  _registry: new Map(),",
   "",
   "  register(name, framework, factory) \x7b",
   "    this._registry.set(name, \x7b framework, factory \x7d);",
   "  \x7d,",
   "",
   "  mount(element, name, props = \x7b\x7d) \x7b",
   "    const component = this._registry.get(name);",
   "    if (!component) \x7b",
   "      console.warn('MTM: no component registered as', name);",
   "      return;",
   "    \x7d",
   "    const instance = component.factory(props);",
   "    if (instance && typeof instance.mount === 'function') \x7b",
   "      instance.mount(element);",
   "    \x7d else \x7b",
   "      element.innerHTML = instance;",
   "    \x7d",
   "  \x7d,",
   "",
   "  readProps(element, scope) \x7b",
   "    const props = \x7b\x7d;",
   "    Array.from(element.attributes).forEach(attr => \x7b",
   "      if (!attr.name.startsWith('data-prop-') || attr.name.endsWith('-type')) \x7b",
   "        return;",
   "      \x7d",
   "      const name = attr.name.slice('data-prop-'.length);",
   "      const type = element.getAttribute('data-prop-' + name + '-type');",
   "      let value = attr.value;",
   "      if (type === 'boolean') \x7b",
   "        value = value === 'true';",
   "      \x7d else if (type === 'variable') \x7b",
   "        const cell = scope[value.replace(/^\\$/, '')];",
   "        value = cell ? cell.value : undefined;",
   "      \x7d else if (type === 'literal') \x7b",
   "        try \x7b value = JSON.parse(value); \x7d catch (err) \x7b /* keep the raw text */ \x7d",
   "      \x7d",
   "      props[name] = value;",
   "    \x7d);",
   "    return props;",
   "  \x7d,",
   "",
   "  mountAll(scope = \x7b\x7d) \x7b",
   "    document.querySelectorAll('[data-component]').forEach(el => \x7b",
   "      this.mount(el, el.getAttribute('data-component'), this.readProps(el, scope));",
   "    \x7d);",
   "  \x7d",
   "\x7d;",
   "",
   "// Interpreter for compiled \x7b#if\x7d condition trees",
   "const MTMConditions = \x7b",
   "  evaluate(node, scope) \x7b",
   "    switch (node.type) \x7b",
   "      case 'literal': return node.value;",
   "      case 'var': return scope[node.name] ? scope[node.name].value : undefined;",
   "      case 'not': return !this.evaluate(node.operand, scope);",
   "      case 'and': \x7b",
   "        const left = this.evaluate(node.left, scope);",
   "        return left ? this.evaluate(node.right, scope) : left;",
   "      \x7d",
   "      case 'or': \x7b",
   "        const left = this.evaluate(node.left, scope);",
   "        return left ? left : this.evaluate(node.right, scope);",
   "      \x7d",
   "      case 'compare':",
   "        return this.compare(node.op, this.evaluate(node.left, scope), this.evaluate(node.right, scope));",
   "      default:",
   "        throw new Error('MTM: unknown condition node ' + node.type);",
   "    \x7d",
   "  \x7d,",
   "",
   "  compare(op, a, b) \x7b",
   "    switch (op) \x7b",
   "      case '===': return a === b;",
   "      case '!==': return a !== b;",
   "      case '==': return a == b;",
   "      case '!=': return a != b;",
   "      case '<': return a < b;",
   "      case '<=': return a <= b;",
   "      case '>': return a > b;",
   "      case '>=': return a >= b;",
   "      default: throw new Error('MTM: unknown operator ' + op);",
   "    \x7d",
   "  \x7d",
   "\x7d;",
   "",
   "window.signal = MTMRouter;"]

end Script

end PageCompiler
